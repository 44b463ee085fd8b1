import Riscv32.Float.Arithmetic
import Riscv32.Proofs.Float.Class

/-!
# Invalid operations

An operation on numbers that has no result gives a NaN, and so does one on NaNs. Which NaN it is,
that is up to the host, but once it is made canonical there is nothing left of the choice, and the
flags never depended on it. The invalid flag is raised for a signaling operand and for a NaN that
comes from no NaN. This is what the standard asks for in all but one case: a fused operation
multiplies zero by infinity and adds a quiet NaN. The product is invalid there, but there is a NaN
that the result could come from.

## Main definitions

* `ArithmeticOp` — the operations, with what the host computes, the canonical result and the flags.
* `ArithmeticOp.Invalid` — the numbers for which an operation has no result.
* `ArithmeticOp.RequiresInvalid` — when the standard asks for the invalid flag.

## Main statements

* `ArithmeticOp.canonical_computed`, a canonical result does not depend on the host.
* `ArithmeticOp.canonical_result`, no NaN among the results is any other than the canonical one.
* `ArithmeticOp.contains_invalid_flags`, when the invalid flag is raised.
-/
namespace Riscv32

namespace FloatBits

variable {p : Precision} {x y z : FloatBits p} {c : Prop} {b : Bool}

/-! ## The other sign -/

theorem magnitude_lt (x : FloatBits p) : x.magnitude < 2 ^ p.magnitudeBits := by
  rw [magnitude_eq]
  exact Nat.mod_lt _ (by positivity)

theorem magnitude_negate (x : FloatBits p) : x.negate.magnitude = x.magnitude :=
  magnitude_ofMagnitude _ x.magnitude_lt

/-- The pattern, with the other sign if the condition holds. -/
def negateIf (b : Bool) (x : FloatBits p) : FloatBits p := if b then x.negate else x

theorem negateIf_true (x : FloatBits p) : x.negateIf true = x.negate := rfl

theorem magnitude_negateIf (b : Bool) (x : FloatBits p) :
    (x.negateIf b).magnitude = x.magnitude := by
  cases b with
  | true => exact magnitude_negate x
  | false => rfl

@[simp] theorem sign_negateIf (b : Bool) (x : FloatBits p) :
    (x.negateIf b).sign = (x.sign != b) := by
  cases b with
  | true =>
    rw [Bool.bne_true]
    exact sign_ofMagnitude _ x.magnitude_lt
  | false => exact (Bool.bne_false _).symm

@[simp] theorem isNaN_negateIf (b : Bool) (x : FloatBits p) : (x.negateIf b).isNaN = x.isNaN := by
  rw [isNaN, isNaN, magnitude_negateIf]

@[simp] theorem isInfinite_negateIf (b : Bool) (x : FloatBits p) :
    (x.negateIf b).isInfinite = x.isInfinite := by
  rw [isInfinite, isInfinite, magnitude_negateIf]

@[simp] theorem isZero_negateIf (b : Bool) (x : FloatBits p) :
    (x.negateIf b).isZero = x.isZero := by
  rw [isZero, isZero, magnitude_negateIf]

/-! ## Results that are no number -/

theorem isNaN_iff_of_number (hy : y.isNaN = false) (hc : ¬c) : y.isNaN = true ↔ c :=
  iff_of_false (ne_true_of_eq_false hy) hc

/-- One factor is zero and the other is infinite. -/
def ZeroTimesInfinity (x y : FloatBits p) : Prop :=
  x.isZero ∧ y.isInfinite ∨ x.isInfinite ∧ y.isZero

theorem zeroTimesInfinity_of (hinfinite : x.isInfinite ∨ y.isInfinite)
    (hzero : x.isZero ∨ y.isZero) : ZeroTimesInfinity x y := by
  have hx : x.isInfinite → ¬x.isZero := not_isZero_of_isInfinite
  have hy : y.isInfinite → ¬y.isZero := not_isZero_of_isInfinite
  rw [ZeroTimesInfinity]
  tauto

/-- The product of the factors is infinite because one of them is. -/
def InfiniteProduct (x y : FloatBits p) : Prop :=
  (x.isInfinite ∨ y.isInfinite) ∧ ¬x.isNaN ∧ ¬y.isNaN ∧ ¬ZeroTimesInfinity x y

/-- The number is below zero, be it finite or not. -/
def BelowZero (x : FloatBits p) : Prop :=
  x.isFinite ∧ x.value < 0 ∨ x.isInfinite ∧ x.sign

theorem value_neg_iff : x.value < 0 ↔ x.sign ∧ ¬x.isZero := by
  have hunit : (0 : ℚ) < 2 ^ p.unitExponent := by positivity
  rw [value, absValue_eq, isZero_iff, ← units_eq_zero_iff]
  cases x.sign with
  | true =>
    rw [if_pos rfl, neg_lt_zero, div_pos_iff_of_pos_right hunit, Nat.cast_pos, Nat.pos_iff_ne_zero]
    tauto
  | false =>
    have hnonneg : (0 : ℚ) ≤ x.units / 2 ^ p.unitExponent := by positivity
    rw [if_neg Bool.false_ne_true]
    exact iff_of_false hnonneg.not_gt fun h => Bool.false_ne_true h.1

theorem belowZero_iff : BelowZero x ↔ ¬x.isNaN ∧ ¬x.isZero ∧ x.sign := by
  have hinfinite : x.isInfinite → ¬x.isZero := not_isZero_of_isInfinite
  rw [BelowZero, value_neg_iff, Bool.not_eq_true x.isNaN, isNaN_eq_false_iff]
  tauto

theorem isNaN_zero (p : Precision) (b : Bool) : (ofMagnitude p b 0).isNaN = false := by
  rw [← Bool.not_eq_true, isNaN_iff, magnitude_ofMagnitude b (by positivity)]
  exact Nat.not_lt_zero _

section

variable (nan : NaN p) (x y z : FloatBits p)

/-- A sum is no number if a term is none or if the terms are infinities of opposite signs. -/
theorem isNaN_add_iff : (x.add nan y).isNaN = true ↔
    x.isNaN ∨ y.isNaN ∨ x.isInfinite ∧ y.isInfinite ∧ x.sign ≠ y.sign := by
  simp only [add, Bool.or_eq_true, Bool.and_eq_true, bne_iff_ne]
  split_ifs with hnan hx hopposite hy
  · exact iff_of_true nan.2 (by tauto)
  · exact iff_of_true nan.2 (by tauto)
  · exact isNaN_iff_of_number (isNaN_of_isInfinite hx) (by tauto)
  · exact isNaN_iff_of_number (isNaN_of_isInfinite hy) (by tauto)
  · exact isNaN_iff_of_number (isNaN_round ..) (by tauto)

/-- A product is no number if a factor is none or if it is zero times infinity. -/
theorem isNaN_mul_iff :
    (x.mul nan y).isNaN = true ↔ x.isNaN ∨ y.isNaN ∨ ZeroTimesInfinity x y := by
  simp only [mul, Bool.or_eq_true]
  split_ifs with hnan hinfinite hzero
  · exact iff_of_true nan.2 (by tauto)
  · exact iff_of_true nan.2 (.inr (.inr (zeroTimesInfinity_of hinfinite hzero)))
  · exact isNaN_iff_of_number (isNaN_infinity ..) (by rw [ZeroTimesInfinity]; tauto)
  · exact isNaN_iff_of_number (isNaN_round ..) (by rw [ZeroTimesInfinity]; tauto)

/-- A quotient is no number if an operand is none or if both are zeros or both infinities. -/
theorem isNaN_div_iff : (x.div nan y).isNaN = true ↔
    x.isNaN ∨ y.isNaN ∨ x.isZero ∧ y.isZero ∨ x.isInfinite ∧ y.isInfinite := by
  have hx : x.isInfinite → ¬x.isZero := not_isZero_of_isInfinite
  have hy : y.isInfinite → ¬y.isZero := not_isZero_of_isInfinite
  simp only [div, Bool.or_eq_true]
  split_ifs with hnan hxinfinite hyinfinite hyinfinite hyzero hxzero
  · exact iff_of_true nan.2 (by tauto)
  · exact iff_of_true nan.2 (by tauto)
  · exact isNaN_iff_of_number (isNaN_infinity ..) (by tauto)
  · exact isNaN_iff_of_number (isNaN_zero ..) (by tauto)
  · exact iff_of_true nan.2 (by tauto)
  · exact isNaN_iff_of_number (isNaN_infinity ..) (by tauto)
  · exact isNaN_iff_of_number (isNaN_round ..) (by tauto)

/-- A square root is no number if the operand is none or is below zero. -/
theorem isNaN_sqrt_iff : (x.sqrt nan).isNaN = true ↔ x.isNaN ∨ BelowZero x := by
  simp only [sqrt, belowZero_iff]
  split_ifs with hnan hzero hsign hinfinite
  · exact iff_of_true nan.2 (.inl hnan)
  · exact isNaN_iff_of_number (Bool.eq_false_iff.mpr hnan) (by tauto)
  · exact iff_of_true nan.2 (.inr ⟨hnan, hzero, hsign⟩)
  · exact isNaN_iff_of_number (isNaN_of_isInfinite hinfinite) (by tauto)
  · exact isNaN_iff_of_number (isNaN_round ..) (by tauto)
  · exact isNaN_iff_of_number (isNaN_round ..) (by tauto)

/-- A product and a term are no number together if one of the three operands is none, if the product
is none, or if product and term are infinities of opposite signs. -/
theorem isNaN_mulAdd_iff : (x.mulAdd nan y z).isNaN = true ↔
    x.isNaN ∨ y.isNaN ∨ z.isNaN ∨ ZeroTimesInfinity x y ∨
      InfiniteProduct x y ∧ z.isInfinite ∧ (x.sign != y.sign) ≠ z.sign := by
  simp only [mulAdd, Bool.or_eq_true, Bool.and_eq_true, bne_iff_ne]
  split_ifs with hnan hinfinite hnone hz
  · exact iff_of_true nan.2 (by tauto)
  · refine iff_of_true nan.2 ?_
    by_cases hzero : ZeroTimesInfinity x y
    · tauto
    · have hfactors : ¬(x.isZero ∨ y.isZero) := fun h => hzero (zeroTimesInfinity_of hinfinite h)
      have hopposite := hnone.resolve_left hfactors
      refine .inr (.inr (.inr (.inr ⟨⟨hinfinite, ?_⟩, hopposite.1, hopposite.2.symm⟩)))
      tauto
  · exact isNaN_iff_of_number (isNaN_infinity ..)
      (by rw [InfiniteProduct, ZeroTimesInfinity]; tauto)
  · exact isNaN_iff_of_number (isNaN_of_isInfinite hz)
      (by rw [InfiniteProduct, ZeroTimesInfinity]; tauto)
  · exact isNaN_iff_of_number (isNaN_round ..) (by rw [InfiniteProduct, ZeroTimesInfinity]; tauto)

end

/-- The lesser or the greater of two numbers is canonical without more ado. -/
theorem canonical_extremum (greater : Bool) (x y : FloatBits p) :
    (x.extremum greater y).canonical = x.extremum greater y := by
  have hnan : (canonicalNaN p).canonical = canonicalNaN p :=
    canonical_of_isNaN (isNaN_canonicalNaN p)
  simp only [extremum]
  split_ifs with hx hy hy
  · exact hnan
  · exact canonical_of_number (Bool.eq_false_iff.mpr hy)
  all_goals exact canonical_of_number (Bool.eq_false_iff.mpr (by assumption))

/-- So is a finite number divided by zero, which is an infinity. -/
theorem isNaN_div_of_dividesByZero (nan : NaN p) (h : dividesByZero x y) :
    (x.div nan y).isNaN = false := by
  obtain ⟨⟨hy, hx⟩, hfinite⟩ : (y.isZero ∧ ¬x.isZero) ∧ x.isFinite := by
    simpa [dividesByZero] using h
  rw [← Bool.not_eq_true, isNaN_div_iff, isNaN_of_isFinite hfinite, isNaN_of_isZero hy,
    isInfinite_of_isFinite hfinite]
  simp [hx]

/-- A NaN that is made canonical is forgotten. -/
theorem canonical_nan (nan : NaN p) : canonical (nan : FloatBits p) = canonicalNaN p :=
  canonical_of_isNaN nan.2

theorem isInfinite_canonical (x : FloatBits p) : x.canonical.isInfinite = x.isInfinite := by
  cases hx : x.isNaN with
  | true =>
    rw [canonical_of_isNaN hx, isInfinite_of_isNaN hx, isInfinite_of_isNaN (isNaN_canonicalNaN p)]
  | false => rw [canonical_of_number hx]

/-! ## Flags -/

theorem contains_invalid_operandFlags (xs : List (FloatBits p)) :
    (operandFlags xs).contains .invalid = true ↔ ∃ x ∈ xs, x.isSignaling := by
  have hwhen : ∀ a : Bool, (FloatFlags.when a .invalid).contains .invalid = a := by decide
  rw [operandFlags, hwhen, List.any_eq_true]

theorem contains_invalid_resultFlags (xs : List (FloatBits p)) (y : FloatBits p) :
    (resultFlags xs y).contains .invalid = true ↔
      (∃ x ∈ xs, x.isSignaling) ∨ y.isNaN ∧ ¬∃ x ∈ xs, x.isNaN := by
  have hunion : ∀ a b c : Bool, (FloatFlags.when a .invalid ∪
      (.when b .invalid ∪ .when c (.overflow ∪ .inexact))).contains .invalid = (a || b) := by decide
  rw [resultFlags, operandFlags, hunion, Bool.or_eq_true, Bool.and_eq_true, Bool.not_eq_true',
    ← Bool.not_eq_true, List.any_eq_true, List.any_eq_true]

/-- The flags are the same before and after a result is made canonical. -/
theorem resultFlags_canonical (xs : List (FloatBits p)) (y : FloatBits p) :
    resultFlags xs y.canonical = resultFlags xs y := by
  rw [resultFlags, resultFlags, isNaN_canonical, isInfinite_canonical]

end FloatBits

open FloatBits

/-- The operations on numbers of one precision that give a number. -/
inductive ArithmeticOp
  | add
  | sub
  | mul
  | div
  | sqrt
  /-- A product and a term, either of them possibly negated. -/
  | fused (negateProduct negateTerm : Bool)
  /-- The lesser of two numbers, or the greater. -/
  | extremum (greater : Bool)
  deriving DecidableEq

namespace ArithmeticOp

variable {p : Precision}

/-- The number of operands. -/
def arity : ArithmeticOp → Nat
  | sqrt => 1
  | fused .. => 3
  | add | sub | mul | div | extremum _ => 2

/-- The operands in a row. -/
def operands (o : ArithmeticOp) (x : Nat → FloatBits p) : List (FloatBits p) :=
  (List.range o.arity).map x

/-- What the host computes, with the NaN that it gives where there is no number. -/
def computed (nan : NaN p) : ArithmeticOp → (Nat → FloatBits p) → FloatBits p
  | add, x => (x 0).add nan (x 1)
  | sub, x => (x 0).sub nan (x 1)
  | mul, x => (x 0).mul nan (x 1)
  | div, x => (x 0).div nan (x 1)
  | sqrt, x => (x 0).sqrt nan
  | fused negateProduct negateTerm, x =>
    ((x 0).negateIf negateProduct).mulAdd nan (x 1) ((x 2).negateIf negateTerm)
  | extremum greater, x => (x 0).extremum greater (x 1)

/-- The result, in which every NaN is the canonical one. -/
def result (o : ArithmeticOp) (x : Nat → FloatBits p) : FloatBits p :=
  (o.computed (.canonical p) x).canonical

/-- The flags that are raised. -/
def flags (o : ArithmeticOp) (x : Nat → FloatBits p) : FloatFlags :=
  match o with
  | div =>
    if dividesByZero (x 0) (x 1) then .divideByZero
    else resultFlags (div.operands x) (div.result x)
  | extremum _ => operandFlags (o.operands x)
  | add | sub | mul | sqrt | fused .. => resultFlags (o.operands x) (o.result x)

/-- The operation has no result, although it may have numbers for operands: infinities of opposite
signs added, zero times infinity, zero by zero, infinity by infinity, the root of a number below
zero. -/
def Invalid : ArithmeticOp → (Nat → FloatBits p) → Prop
  | add, x => (x 0).isInfinite ∧ (x 1).isInfinite ∧ (x 0).sign ≠ (x 1).sign
  | sub, x => (x 0).isInfinite ∧ (x 1).isInfinite ∧ (x 0).sign = (x 1).sign
  | mul, x => ZeroTimesInfinity (x 0) (x 1)
  | div, x => (x 0).isZero ∧ (x 1).isZero ∨ (x 0).isInfinite ∧ (x 1).isInfinite
  | sqrt, x => BelowZero (x 0)
  | fused negateProduct negateTerm, x => ZeroTimesInfinity (x 0) (x 1) ∨
    InfiniteProduct (x 0) (x 1) ∧ (x 2).isInfinite ∧
      (((x 0).sign != (x 1).sign) != negateProduct) ≠ ((x 2).sign != negateTerm)
  | extremum _, _ => False

/-- An operand is no number. -/
def HasNaN (o : ArithmeticOp) (x : Nat → FloatBits p) : Prop := ∃ y ∈ o.operands x, y.isNaN

/-- An operand is a NaN that must signal. -/
def HasSignaling (o : ArithmeticOp) (x : Nat → FloatBits p) : Prop :=
  ∃ y ∈ o.operands x, y.isSignaling

/-- The standard asks for the invalid flag. -/
def RequiresInvalid (o : ArithmeticOp) (x : Nat → FloatBits p) : Prop :=
  o.HasSignaling x ∨ o.Invalid x

/-- Zero times infinity and a quiet NaN for a term. -/
def Overlooked : ArithmeticOp → (Nat → FloatBits p) → Prop
  | fused .., x => ZeroTimesInfinity (x 0) (x 1) ∧ (x 2).isNaN ∧ ¬(x 2).isSignaling
  | add, _ | sub, _ | mul, _ | div, _ | sqrt, _ | extremum _, _ => False

variable {o : ArithmeticOp} {x : Nat → FloatBits p}

/-- Whatever NaN the host gives, nothing is left of it in a canonical result. -/
theorem canonical_computed (o : ArithmeticOp) (nan : NaN p) (x : Nat → FloatBits p) :
    (o.computed nan x).canonical = o.result x := by
  cases o with
  | add | mul | div | sqrt | fused =>
    simp only [result, computed, FloatBits.add, FloatBits.mul, FloatBits.div, FloatBits.sqrt,
      FloatBits.mulAdd, apply_ite canonical, canonical_nan]
  | sub => simp only [result, computed, FloatBits.sub, FloatBits.add, apply_ite canonical,
      canonical_nan]
  | extremum => rfl

/-- No result is a NaN other than the canonical one. -/
theorem canonical_result (o : ArithmeticOp) (x : Nat → FloatBits p) (hnan : (o.result x).isNaN) :
    o.result x = canonicalNaN p := eq_canonicalNaN_of_canonical hnan

theorem isNaN_computed (nan : NaN p) : (o.computed nan x).isNaN = (o.result x).isNaN := by
  rw [← o.canonical_computed nan, isNaN_canonical]

/-- The flags can be told from what the host computes. -/
theorem resultFlags_computed (nan : NaN p) (xs : List (FloatBits p)) :
    resultFlags xs (o.computed nan x) = resultFlags xs (o.result x) := by
  rw [← o.canonical_computed nan, resultFlags_canonical]

/-- The lesser and the greater of two numbers are results as they are. -/
theorem result_extremum (greater : Bool) (x : Nat → FloatBits p) :
    (extremum greater).result x = (x 0).extremum greater (x 1) := canonical_extremum ..

/-- A finite number divided by zero is a result as it is. -/
theorem result_div_of_dividesByZero (nan : NaN p) (x : Nat → FloatBits p)
    (h : dividesByZero (x 0) (x 1)) : div.result x = (x 0).div nan (x 1) := by
  rw [← div.canonical_computed nan]
  exact canonical_of_number (isNaN_div_of_dividesByZero nan h)

theorem exists_mem_operands {q : FloatBits p → Prop} :
    (∃ y ∈ o.operands x, q y) ↔ ∃ k < o.arity, q (x k) := by
  simp [operands]

/-- The result of an operation that computes is no number if an operand is none or if the operation
is invalid. -/
theorem isNaN_result_iff (ho : ∀ greater, o ≠ extremum greater) :
    (o.result x).isNaN ↔ o.HasNaN x ∨ o.Invalid x := by
  rw [HasNaN, exists_mem_operands, ← isNaN_computed (.canonical p)]
  cases o with
  | add =>
    rw [computed, isNaN_add_iff]
    simp only [Invalid, arity, Nat.exists_lt_succ_right]
    simp [or_assoc]
  | sub =>
    rw [computed, FloatBits.sub, ← negateIf_true, isNaN_add_iff]
    simp only [Invalid, arity, Nat.exists_lt_succ_right]
    simp [or_assoc]
  | mul =>
    rw [computed, isNaN_mul_iff]
    simp only [Invalid, arity, Nat.exists_lt_succ_right]
    simp [or_assoc]
  | div =>
    rw [computed, isNaN_div_iff]
    simp only [Invalid, arity, Nat.exists_lt_succ_right]
    simp [or_assoc]
  | sqrt =>
    rw [computed, isNaN_sqrt_iff]
    simp only [Invalid, arity, Nat.exists_lt_succ_right]
    simp
  | fused negateProduct negateTerm =>
    have hsign : (((x 0).sign != negateProduct) != (x 1).sign) =
        (((x 0).sign != (x 1).sign) != negateProduct) := Bool.xor_right_comm ..
    rw [computed, isNaN_mulAdd_iff]
    simp only [Invalid, arity, Nat.exists_lt_succ_right, ZeroTimesInfinity, InfiniteProduct,
      isNaN_negateIf, isInfinite_negateIf, isZero_negateIf, sign_negateIf, hsign]
    simp [or_assoc]
  | extremum greater => exact absurd rfl (ho greater)

/-- A division by zero raises a flag of its own, and then nothing is invalid. -/
theorem contains_invalid_flags_div (x : Nat → FloatBits p) : (div.flags x).contains .invalid =
    (resultFlags (div.operands x) (div.result x)).contains .invalid := by
  rw [flags]
  split
  case isFalse => rfl
  case isTrue hzero =>
    obtain ⟨⟨hy, -⟩, hfinite⟩ : ((x 1).isZero ∧ ¬(x 0).isZero) ∧ (x 0).isFinite := by
      simpa [dividesByZero] using hzero
    have hx := isNaN_of_isFinite hfinite
    have hquotient : (div.result x).isNaN = false := by
      rw [← isNaN_computed (.canonical p)]
      exact isNaN_div_of_dividesByZero _ hzero
    have hnone : ¬(resultFlags (div.operands x) (div.result x)).contains .invalid := by
      rw [contains_invalid_resultFlags]
      simp [operands, arity, List.range_succ, isSignaling, hx, isNaN_of_isZero hy, hquotient]
    rw [Bool.eq_false_iff.mpr hnone]
    rfl

/-- The invalid flag is raised for a signaling operand, and if the operation has no result for
operands that are all numbers. -/
theorem contains_invalid_flags_iff (o : ArithmeticOp) (x : Nat → FloatBits p) :
    (o.flags x).contains .invalid = true ↔ o.HasSignaling x ∨ o.Invalid x ∧ ¬o.HasNaN x := by
  have hresult : (∀ greater, o ≠ extremum greater) →
      ((resultFlags (o.operands x) (o.result x)).contains .invalid = true ↔
        o.HasSignaling x ∨ o.Invalid x ∧ ¬o.HasNaN x) := by
    intro ho
    rw [contains_invalid_resultFlags, isNaN_result_iff ho, ← HasSignaling, ← HasNaN]
    tauto
  cases o with
  | div => rw [← hresult nofun, contains_invalid_flags_div]
  | extremum greater =>
    rw [flags, contains_invalid_operandFlags, Invalid, ← HasSignaling]
    tauto
  | _ => exact hresult nofun

/-- What is overlooked are the invalid operations that have a quiet NaN for an operand. -/
theorem overlooked_iff : o.Overlooked x ↔ o.Invalid x ∧ o.HasNaN x ∧ ¬o.HasSignaling x := by
  have hinfinite (y : FloatBits p) : y.isInfinite → ¬y.isNaN := fun h =>
    ne_true_of_eq_false (isNaN_of_isInfinite h)
  have hzero (y : FloatBits p) : y.isZero → ¬y.isNaN := fun h =>
    ne_true_of_eq_false (isNaN_of_isZero h)
  have hsignaling (y : FloatBits p) : y.isSignaling → y.isNaN := fun h =>
    (isSignaling_iff_fields.mp h).1
  rw [HasNaN, HasSignaling, exists_mem_operands, exists_mem_operands]
  cases o with
  | add | sub | mul | div =>
    simp only [Overlooked, Invalid, arity, ZeroTimesInfinity, Nat.exists_lt_succ_right]
    grind
  | sqrt =>
    simp only [Overlooked, Invalid, arity, belowZero_iff, Nat.exists_lt_succ_right]
    grind
  | fused negateProduct negateTerm =>
    simp only [Overlooked, Invalid, arity, ZeroTimesInfinity, InfiniteProduct,
      Nat.exists_lt_succ_right]
    grind
  | extremum greater => simp [Overlooked, Invalid]

/-- The invalid flag is raised if the standard asks for it, unless zero is multiplied by infinity
and a quiet NaN added. -/
theorem contains_invalid_flags (o : ArithmeticOp) (x : Nat → FloatBits p) :
    (o.flags x).contains .invalid = true ↔ o.RequiresInvalid x ∧ ¬o.Overlooked x := by
  rw [contains_invalid_flags_iff, RequiresInvalid, overlooked_iff]
  tauto

end ArithmeticOp
end Riscv32
