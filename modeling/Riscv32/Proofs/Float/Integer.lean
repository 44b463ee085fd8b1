import Mathlib.Algebra.Order.Field.Basic
import Mathlib.Algebra.Ring.Int.Parity
import Mathlib.Tactic.Positivity
import Riscv32.Float.Convert
import Riscv32.Proofs.Float.Value

/-!
# Conversion to integers

What it means for an integer to be the one that a mode rounds a rational number to is said by the
distance of the two, without any division. There is always exactly one such integer, and rounding a
quotient of natural numbers gives it. A conversion to a word gives this integer if the word can
hold it, and the nearest end of the range otherwise.

## Main definitions

* `RoundingMode.Rounds` — the integer that a mode rounds a number to, as a relation.
* `FloatBits.Converts` — the result and the flags of a conversion to a range of integers.

## Main statements

* `RoundingMode.existsUnique_rounds`, that the relation is a function.
* `RoundingMode.rounds_roundInteger`, that rounding a quotient computes it.
* `FloatBits.toInteger_exact`, for the conversions to signed and to unsigned words.
-/
namespace Riscv32

namespace RoundingMode

variable {mode : RoundingMode} {v : ℚ} {i j : ℤ}

/-- Whether the integer is the one that the mode rounds the number to. The modes that round to
nearest allow a distance of one half, and differ in what they ask for then; the others allow any
distance less than one, on the side that they round to. -/
def Rounds (mode : RoundingMode) (v : ℚ) (i : ℤ) : Prop :=
  match mode with
  | nearestEven => |v - i| ≤ 1 / 2 ∧ (|v - i| = 1 / 2 → Even i)
  | towardZero => (0 ≤ v → i ≤ v ∧ v < i + 1) ∧ (v ≤ 0 → i - 1 < v ∧ v ≤ i)
  | down => i ≤ v ∧ v < i + 1
  | up => i - 1 < v ∧ v ≤ i
  | nearestAway => |v - i| ≤ 1 / 2 ∧ (|v - i| = 1 / 2 → |v| < |(i : ℚ)|)

/-! ## Uniqueness -/

/-- No integer up to a number is above one that is less than one below the number. -/
theorem le_of_lt_add_one (hi : v < i + 1) (hj : (j : ℚ) ≤ v) : j ≤ i := by
  have hlt : (j : ℚ) < (i + 1 : ℤ) := by
    push_cast
    linarith
  exact Int.lt_add_one_iff.mp (by exact_mod_cast hlt)

/-- No integer from a number on is below one that is less than one above the number. -/
theorem le_of_sub_one_lt (hi : i - 1 < v) (hj : v ≤ j) : i ≤ j := by
  have hlt : (i : ℚ) < (j + 1 : ℤ) := by
    push_cast
    linarith
  exact Int.lt_add_one_iff.mp (by exact_mod_cast hlt)

/-- A number with two nearest integers is halfway between them. -/
theorem eq_half_of_lt (hi : |v - i| ≤ 1 / 2) (hj : |v - j| ≤ 1 / 2) (hlt : i < j) :
    j = i + 1 ∧ v = i + 1 / 2 := by
  have hcast : (i : ℚ) + 1 ≤ j := by exact_mod_cast hlt
  have hleft := (abs_le.mp hi).2
  have hright := (abs_le.mp hj).1
  have hnext : (j : ℚ) = (i + 1 : ℤ) := by
    push_cast
    linarith
  exact ⟨by exact_mod_cast hnext, by linarith⟩

/-- In a mode that rounds to nearest it is enough to say which of two neighbours a tie goes to. -/
theorem eq_of_nearest {P : ℤ → Prop}
    (hi : |v - i| ≤ 1 / 2 ∧ (|v - i| = 1 / 2 → P i))
    (hj : |v - j| ≤ 1 / 2 ∧ (|v - j| = 1 / 2 → P j))
    (htie : ∀ k : ℤ, v = k + 1 / 2 → P k → P (k + 1) → False) : i = j := by
  have apart : ∀ {a b : ℤ}, |v - a| ≤ 1 / 2 ∧ (|v - a| = 1 / 2 → P a) →
      |v - b| ≤ 1 / 2 ∧ (|v - b| = 1 / 2 → P b) → ¬a < b := by
    intro a b ha hb hlt
    obtain ⟨rfl, hhalf⟩ := eq_half_of_lt ha.1 hb.1 hlt
    have hleft : v - a = 1 / 2 := by linarith
    have hright : v - (a + 1 : ℤ) = -(1 / 2) := by
      push_cast
      linarith
    apply htie a hhalf (ha.2 _) (hb.2 _)
    · rw [hleft, abs_of_pos (by norm_num)]
    · rw [hright, abs_neg, abs_of_pos (by norm_num)]
  exact le_antisymm (not_lt.mp (apart hj hi)) (not_lt.mp (apart hi hj))

/-- A mode rounds a number to one integer only. -/
theorem Rounds.unique (hi : mode.Rounds v i) (hj : mode.Rounds v j) : i = j := by
  have hdown : down.Rounds v i → down.Rounds v j → i = j := fun hi hj =>
    le_antisymm (le_of_lt_add_one hj.2 hi.1) (le_of_lt_add_one hi.2 hj.1)
  have hup : up.Rounds v i → up.Rounds v j → i = j := fun hi hj =>
    le_antisymm (le_of_sub_one_lt hi.1 hj.2) (le_of_sub_one_lt hj.1 hi.2)
  cases mode with
  | down => exact hdown hi hj
  | up => exact hup hi hj
  | towardZero =>
    rcases le_total 0 v with hv | hv
    · exact hdown (hi.1 hv) (hj.1 hv)
    · exact hup (hi.2 hv) (hj.2 hv)
  | nearestEven =>
    apply eq_of_nearest hi hj
    intro k _ heven hnext
    exact Int.even_add_one.mp hnext heven
  | nearestAway =>
    apply eq_of_nearest (P := fun i => |v| < |(i : ℚ)|) hi hj
    intro k hv hk hnext
    push_cast at hnext
    rcases le_or_gt 0 k with hsign | hsign
    · have hcast : (0 : ℚ) ≤ k := by exact_mod_cast hsign
      rw [abs_of_nonneg hcast, abs_of_nonneg (by linarith)] at hk
      linarith
    · have hcast : (k : ℚ) + 1 ≤ 0 := by exact_mod_cast hsign
      rw [abs_of_nonpos hcast, abs_of_nonpos (by linarith)] at hnext
      linarith

/-! ## Numbers of the other sign -/

/-- The mode that rounds the negated number to the negated integer. -/
def mirror : RoundingMode → RoundingMode
  | down => up
  | up => down
  | mode => mode

theorem Rounds.neg (h : mode.mirror.Rounds v i) : mode.Rounds (-v) (-i : ℤ) := by
  have hdistance : |-v - (-i : ℤ)| = |v - i| := by
    rw [← abs_neg]
    push_cast
    congr 1
    ring
  cases mode with
  | down => exact ⟨by push_cast; linarith [h.2], by push_cast; linarith [h.1]⟩
  | up => exact ⟨by push_cast; linarith [h.2], by push_cast; linarith [h.1]⟩
  | towardZero =>
    constructor
    · intro hv
      obtain ⟨hlow, hhigh⟩ := h.2 (by linarith)
      exact ⟨by push_cast; linarith, by push_cast; linarith⟩
    · intro hv
      obtain ⟨hlow, hhigh⟩ := h.1 (by linarith)
      exact ⟨by push_cast; linarith, by push_cast; linarith⟩
  | nearestEven => exact ⟨hdistance ▸ h.1, fun heq => (h.2 (hdistance ▸ heq)).neg⟩
  | nearestAway =>
    refine ⟨hdistance ▸ h.1, fun heq => ?_⟩
    push_cast
    rw [abs_neg, abs_neg]
    exact h.2 (hdistance ▸ heq)

theorem roundInteger_true (mode : RoundingMode) (num den : Nat) :
    mode.roundInteger true num den = mode.mirror.roundInteger false num den := by
  cases mode <;> rfl

/-! ## Rounding a quotient -/

variable {f : ℚ} {num den : Nat}

theorem nearest_lower {P : ℤ → Prop} (hnonneg : 0 ≤ f) (hhalf : f ≤ 1 / 2)
    (htie : f = 1 / 2 → P i) :
    |i + f - i| ≤ 1 / 2 ∧ (|i + f - i| = 1 / 2 → P i) := by
  rw [add_sub_cancel_left, abs_of_nonneg hnonneg]
  exact ⟨hhalf, htie⟩

theorem nearest_upper {P : ℤ → Prop} (hhalf : 1 / 2 ≤ f) (hone : f ≤ 1)
    (htie : f = 1 / 2 → P (i + 1)) :
    |i + f - (i + 1 : ℤ)| ≤ 1 / 2 ∧ (|i + f - (i + 1 : ℤ)| = 1 / 2 → P (i + 1)) := by
  have hdistance : |i + f - (i + 1 : ℤ)| = 1 - f := by
    rw [abs_of_nonpos (by push_cast; linarith)]
    push_cast
    ring
  rw [hdistance]
  exact ⟨by linarith, fun heq => htie (by linarith)⟩

/-- A quotient is its integral part and a fraction of one, and the remainder tells how the fraction
compares to zero and to one half. -/
theorem exists_fraction (num : Nat) (hden : 0 < den) : ∃ f : ℚ,
    (num / den : ℚ) = (num / den : Nat) + f ∧ 0 ≤ f ∧ f < 1 ∧ (0 < f ↔ 0 < num % den) ∧
      (1 / 2 < f ↔ den < 2 * (num % den)) ∧ (f = 1 / 2 ↔ 2 * (num % den) = den) := by
  have hpos : (0 : ℚ) < den := by exact_mod_cast hden
  have hrem : ((num % den : Nat) : ℚ) < den := by exact_mod_cast Nat.mod_lt num hden
  have hnum : (den * (num / den : Nat) + (num % den : Nat) : ℚ) = num := by
    exact_mod_cast Nat.div_add_mod num den
  refine ⟨(num % den : Nat) / den, ?_, by positivity, (div_lt_one hpos).mpr hrem, ?_, ?_, ?_⟩
  · rw [← hnum, add_div, mul_div_cancel_left₀ _ hpos.ne']
  · rw [div_pos_iff_of_pos_right hpos]
    exact_mod_cast Iff.rfl
  · rw [div_lt_div_iff₀ two_pos hpos, one_mul, mul_comm]
    exact_mod_cast Iff.rfl
  · rw [div_eq_div_iff hpos.ne' two_ne_zero, one_mul, mul_comm]
    exact_mod_cast Iff.rfl

/-- The integral part is what a quotient is rounded to down and toward zero. -/
theorem rounds_integralPart (num : Nat) (hden : 0 < den) :
    down.Rounds (num / den) (num / den : Nat) ∧
      towardZero.Rounds (num / den) (num / den : Nat) := by
  obtain ⟨f, hsplit, hnonneg, hone, -⟩ := exists_fraction num hden
  rw [hsplit]
  generalize num / den = q
  have hq : (0 : ℚ) ≤ q := Nat.cast_nonneg q
  have hdown : down.Rounds (q + f) q := ⟨by push_cast; linarith, by push_cast; linarith⟩
  exact ⟨hdown, fun _ => hdown, fun hv => ⟨by push_cast; linarith, by push_cast; linarith⟩⟩

/-- Rounding up goes to the next integer unless there is no fraction. -/
theorem rounds_up (num : Nat) (hden : 0 < den) :
    up.Rounds (num / den) (up.roundInteger false num den) := by
  obtain ⟨f, hsplit, hnonneg, hone, hpos_iff, -, -⟩ := exists_fraction num hden
  simp only [hsplit, roundInteger, Bool.not_false, Bool.true_and, decide_eq_true_eq, ← hpos_iff]
  generalize num / den = q
  split
  case isTrue hpos => exact ⟨by push_cast; linarith, by push_cast; linarith⟩
  case isFalse hpos => exact ⟨by push_cast; linarith, by push_cast; linarith⟩

/-- Rounding to nearest compares the fraction to one half, and looks at the parity of the lower
neighbour if they are equal. -/
theorem rounds_nearestEven (num : Nat) (hden : 0 < den) :
    nearestEven.Rounds (num / den) (nearestEven.roundInteger false num den) := by
  obtain ⟨f, hsplit, hnonneg, hone, -, hlt_iff, heq_iff⟩ := exists_fraction num hden
  simp only [hsplit, roundInteger, Bool.or_eq_true, Bool.and_eq_true, decide_eq_true_eq, beq_iff_eq,
    ← hlt_iff, ← heq_iff]
  generalize num / den = q
  split
  case isTrue hup =>
    apply nearest_upper (i := q)
    · exact hup.elim le_of_lt fun heq => heq.1.ge
    · exact hone.le
    · intro heq
      have hodd : Odd q := Nat.odd_iff.mpr (hup.resolve_left heq.not_gt).2
      exact_mod_cast hodd.add_one
  case isFalse hup =>
    apply nearest_lower (i := q) hnonneg
    · exact not_lt.mp fun hlt => hup (.inl hlt)
    · intro heq
      have heven : Even q := Nat.not_odd_iff_even.mp fun hodd =>
        hup (.inr ⟨heq, Nat.odd_iff.mp hodd⟩)
      exact_mod_cast heven

/-- Ties away from zero are ties to the upper neighbour. -/
theorem rounds_nearestAway (num : Nat) (hden : 0 < den) :
    nearestAway.Rounds (num / den) (nearestAway.roundInteger false num den) := by
  obtain ⟨f, hsplit, hnonneg, hone, -, hlt_iff, heq_iff⟩ := exists_fraction num hden
  have hle_iff : den ≤ 2 * (num % den) ↔ 1 / 2 ≤ f := by
    rw [le_iff_lt_or_eq, le_iff_lt_or_eq, hlt_iff, eq_comm, eq_comm (a := 1 / 2), heq_iff]
  simp only [hsplit, roundInteger, decide_eq_true_eq, hle_iff]
  generalize num / den = q
  have hq : (0 : ℚ) ≤ q := Nat.cast_nonneg q
  split
  case isTrue hup =>
    apply nearest_upper (i := q) (P := fun i : ℤ => |(q + f : ℚ)| < |(i : ℚ)|) hup hone.le
    intro _
    push_cast
    rw [abs_of_nonneg (by linarith), abs_of_nonneg (by linarith)]
    linarith
  case isFalse hup =>
    apply nearest_lower (i := q) (P := fun i : ℤ => |(q + f : ℚ)| < |(i : ℚ)|) hnonneg
    · exact (not_le.mp hup).le
    · exact fun heq => absurd heq.ge hup

/-- Rounding a quotient gives the integer that the mode rounds it to. -/
theorem rounds_roundInteger_false (mode : RoundingMode) (num : Nat) (hden : 0 < den) :
    mode.Rounds (num / den) (mode.roundInteger false num den) := by
  cases mode with
  | down => exact (rounds_integralPart num hden).1
  | towardZero => exact (rounds_integralPart num hden).2
  | up => exact rounds_up num hden
  | nearestEven => exact rounds_nearestEven num hden
  | nearestAway => exact rounds_nearestAway num hden

/-- Rounding an absolute value, with the sign put back. -/
theorem rounds_roundInteger (mode : RoundingMode) (negative : Bool) (num : Nat) (hden : 0 < den) :
    mode.Rounds (if negative then -(num / den) else num / den)
      (if negative then -(mode.roundInteger negative num den : ℤ)
        else mode.roundInteger negative num den) := by
  cases negative with
  | false => exact rounds_roundInteger_false mode num hden
  | true =>
    rw [roundInteger_true]
    exact (rounds_roundInteger_false mode.mirror num hden).neg

/-- An integer is its absolute value with its sign. -/
theorem signed_natAbs (i : ℤ) : (if decide (i < 0) then -(i.natAbs : ℚ) else i.natAbs) = i := by
  rw [Nat.cast_natAbs]
  rcases lt_or_ge i 0 with hneg | hnonneg
  · rw [if_pos (decide_eq_true hneg), abs_of_neg hneg, Int.cast_neg, neg_neg]
  · rw [if_neg (by simpa using hnonneg), abs_of_nonneg hnonneg]

/-- Every mode rounds every number to exactly one integer. -/
theorem existsUnique_rounds (mode : RoundingMode) (v : ℚ) : ∃! i, mode.Rounds v i := by
  have h := rounds_roundInteger mode (decide (v.num < 0)) v.num.natAbs v.den_pos
  rw [← neg_div, ← ite_div, signed_natAbs, Rat.num_div_den] at h
  exact ⟨_, h, fun j hj => hj.unique h⟩

end RoundingMode

namespace FloatBits

variable {p : Precision} {x : FloatBits p} {mode : RoundingMode} {lo hi i : ℤ}

/-- What the conversion of a number to the integers from `lo` to `hi` gives. -/
structure Converts (x : FloatBits p) (mode : RoundingMode) (lo hi result : ℤ)
    (flags : FloatFlags) : Prop where
  /-- A number whose rounded value is in the range gives this value, and the flag tells whether
  rounding changed the number. -/
  inside : ∀ i, x.isFinite → mode.Rounds x.value i → lo ≤ i → i ≤ hi →
    result = i ∧ flags = .when (decide ((i : ℚ) ≠ x.value)) .inexact
  /-- A number that is rounded to more than the greatest integer gives this integer. -/
  above : ∀ i, x.isFinite → mode.Rounds x.value i → hi < i → result = hi ∧ flags = .invalid
  /-- A number that is rounded to less than the least integer gives this integer. -/
  below : ∀ i, x.isFinite → mode.Rounds x.value i → i < lo → result = lo ∧ flags = .invalid
  /-- An infinity gives the end of the range on its side. -/
  infinite : x.isInfinite → result = (if x.sign then lo else hi) ∧ flags = .invalid
  /-- A NaN gives the greatest integer, whatever its sign. -/
  nan : x.isNaN → result = hi ∧ flags = .invalid

/-- The rounded integer of the definition is the one the mode rounds the value to. -/
theorem rounds_roundedInt (x : FloatBits p) (mode : RoundingMode) :
    mode.Rounds x.value (x.roundedInt mode) := by
  rw [value, absValue_eq, roundedInt]
  have h := RoundingMode.rounds_roundInteger mode x.sign x.units (one_pos p)
  rw [one_eq] at h ⊢
  exact_mod_cast h

/-- Whether a number is an integer is decided by its units. -/
theorem isInteger_eq (x : FloatBits p) (i : ℤ) : x.isInteger i = decide ((i : ℚ) = x.value) := by
  have hone : (2 : ℚ) ^ p.unitExponent ≠ 0 := by positivity
  have hunits : x.signedUnits = i * (one p : ℤ) ↔ (i : ℚ) = x.value := by
    rw [value_eq, one_eq, eq_div_iff hone, eq_comm]
    exact_mod_cast Iff.rfl
  rw [isInteger, beq_eq_decide, decide_eq_decide]
  exact hunits

/-- A conversion to a range gives what it should. -/
theorem converts_toIntIn (x : FloatBits p) (mode : RoundingMode) (hle : lo ≤ hi) :
    Converts x mode lo hi (x.toIntIn mode lo hi).1 (x.toIntIn mode lo hi).2 := by
  -- A finite number is neither a NaN nor an infinity, and it is rounded in one way only.
  have hfinite : ∀ i, x.isFinite → mode.Rounds x.value i → x.toIntIn mode lo hi =
      if hi < i then (hi, .invalid) else if i < lo then (lo, .invalid)
      else (i, .when (!x.isInteger i) .inexact) := by
    intro i hx hi
    obtain rfl := hi.unique (rounds_roundedInt x mode)
    rw [toIntIn, if_neg (ne_true_of_eq_false (isNaN_of_isFinite hx)),
      if_neg (ne_true_of_eq_false (isInfinite_of_isFinite hx))]
  constructor
  case inside =>
    intro i hx hi hlo hhi
    rw [hfinite i hx hi, if_neg (by omega), if_neg (by omega), isInteger_eq, ← decide_not]
    exact ⟨rfl, rfl⟩
  case above =>
    intro i hx hi hlt
    rw [hfinite i hx hi, if_pos hlt]
    exact ⟨rfl, rfl⟩
  case below =>
    intro i hx hi hlt
    rw [hfinite i hx hi, if_neg (by omega), if_pos hlt]
    exact ⟨rfl, rfl⟩
  case infinite =>
    intro hx
    rw [toIntIn, if_neg (ne_true_of_eq_false (isNaN_of_isInfinite hx)), if_pos hx]
    exact ⟨rfl, rfl⟩
  case nan =>
    intro hx
    rw [toIntIn, if_pos hx]
    exact ⟨rfl, rfl⟩

/-- The conversion stays in the range. -/
theorem toIntIn_mem (x : FloatBits p) (mode : RoundingMode) (hle : lo ≤ hi) :
    lo ≤ (x.toIntIn mode lo hi).1 ∧ (x.toIntIn mode lo hi).1 ≤ hi := by
  rw [toIntIn]
  split
  · exact ⟨hle, le_refl hi⟩
  · split
    · split
      · exact ⟨le_refl lo, hle⟩
      · exact ⟨hle, le_refl hi⟩
    · dsimp only
      split
      · exact ⟨hle, le_refl hi⟩
      · split
        · exact ⟨le_refl lo, hle⟩
        · dsimp only
          omega

theorem toInt_toSigned (x : FloatBits p) (mode : RoundingMode) :
    (x.toSigned mode).1.toInt = (x.toIntIn mode (-0x80000000) 0x7FFFFFFF).1 := by
  have hrange : (-0x80000000 : ℤ) ≤ 0x7FFFFFFF := by decide
  have hmem := toIntIn_mem x mode hrange
  rw [toSigned, BitVec.toInt_ofInt]
  exact Int.bmod_eq_of_le (by omega) (by omega)

theorem toNat_toUnsigned (x : FloatBits p) (mode : RoundingMode) :
    ((x.toUnsigned mode).1.toNat : ℤ) = (x.toIntIn mode 0 0xFFFFFFFF).1 := by
  have hrange : (0 : ℤ) ≤ 0xFFFFFFFF := by decide
  have hmem := toIntIn_mem x mode hrange
  rw [toUnsigned, BitVec.toNat_ofInt]
  omega

/-- In each of the five modes there is one integer that a number is rounded to, and the conversions
to signed and to unsigned words give it whenever the word can hold it, with the inexact flag exactly
if rounding changed the number. Every other number gives the nearest end of the range, a NaN the
greatest integer, with the invalid flag alone. -/
theorem toInteger_exact (x : FloatBits p) (mode : RoundingMode) :
    (∃! i, mode.Rounds x.value i) ∧
    Converts x mode (-2 ^ 31) (2 ^ 31 - 1) (x.toSigned mode).1.toInt (x.toSigned mode).2 ∧
    Converts x mode 0 (2 ^ 32 - 1) (x.toUnsigned mode).1.toNat (x.toUnsigned mode).2 := by
  refine ⟨mode.existsUnique_rounds x.value, ?_, ?_⟩
  · rw [toInt_toSigned]
    exact converts_toIntIn x mode (by decide)
  · rw [toNat_toUnsigned]
    exact converts_toIntIn x mode (by decide)

end FloatBits
end Riscv32
