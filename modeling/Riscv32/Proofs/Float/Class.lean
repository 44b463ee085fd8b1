import Riscv32.Proofs.Float.Conversion

/-!
# The classes of numbers

The sign, the exponent field and the fraction field put every pattern into one of ten classes. The
mask that classifies a pattern is computed from its magnitude instead, by comparisons made in a
certain order. It has one bit set, that of the class. A number of the other sign is of the mirrored
class, and a conversion to double precision neither makes nor loses a NaN, an infinity or a zero.

## Main definitions

* `NumberClass` — the classes, with the bit of the mask that each has.
* `FloatBits.numberClass` — the class of a pattern in terms of its fields.

## Main statements

* `FloatBits.getLsbD_classMask`, that the mask is the bit of the class.
* `FloatBits.numberClass_flip`, the class of a number with the other sign.
* `FloatBits.classMask_partition`, both, and what a conversion keeps.
-/
namespace Riscv32

/-- The classes of patterns. -/
inductive NumberClass
  | infinite (negative : Bool)
  | normal (negative : Bool)
  | subnormal (negative : Bool)
  | zero (negative : Bool)
  | signaling
  | quiet
  deriving DecidableEq

namespace NumberClass

/-- The bit that stands for the class in a mask. -/
def place : NumberClass → Nat
  | infinite true => 0
  | normal true => 1
  | subnormal true => 2
  | zero true => 3
  | zero false => 4
  | subnormal false => 5
  | normal false => 6
  | infinite false => 7
  | signaling => 8
  | quiet => 9

/-- Whether the patterns of the class are no numbers. -/
def isNaN : NumberClass → Bool
  | signaling | quiet => true
  | _ => false

/-- The class of the numbers with the other sign. -/
def opposite : NumberClass → NumberClass
  | infinite b => infinite !b
  | normal b => normal !b
  | subnormal b => subnormal !b
  | zero b => zero !b
  | signaling => signaling
  | quiet => quiet

variable {c : NumberClass}

theorem place_lt (c : NumberClass) : c.place < 10 := by
  rcases c with ⟨_ | _⟩ | ⟨_ | _⟩ | ⟨_ | _⟩ | ⟨_ | _⟩ | _ | _ <;> decide

/-- The class whose bit is the given one, and the quiet NaNs from there on. -/
def ofPlace : Nat → NumberClass
  | 0 => infinite true
  | 1 => normal true
  | 2 => subnormal true
  | 3 => zero true
  | 4 => zero false
  | 5 => subnormal false
  | 6 => normal false
  | 7 => infinite false
  | 8 => signaling
  | _ => quiet

theorem ofPlace_place (c : NumberClass) : ofPlace c.place = c := by
  rcases c with ⟨_ | _⟩ | ⟨_ | _⟩ | ⟨_ | _⟩ | ⟨_ | _⟩ | _ | _ <;> rfl

/-- No two classes have the same bit. -/
theorem place_injective : Function.Injective place :=
  Function.LeftInverse.injective ofPlace_place

/-- The bits of the numbers lie symmetrically. -/
theorem place_opposite (hc : c.isNaN = false) : c.opposite.place + c.place = 7 := by
  rcases c with ⟨_ | _⟩ | ⟨_ | _⟩ | ⟨_ | _⟩ | ⟨_ | _⟩ | _ | _ <;> first | rfl | cases hc

end NumberClass

namespace FloatBits

variable {p : Precision} {x y : FloatBits p} {b : Bool}

/-- The class of a pattern by its fields. An exponent field of ones is that of infinities and NaNs,
of which the quiet ones have the top bit of the fraction; an exponent field of zeros is that of
zeros and subnormal numbers. -/
def numberClass (x : FloatBits p) : NumberClass :=
  if x.exponentField = 2 ^ p.exponentBits - 1 then
    if x.fractionField = 0 then .infinite x.sign
    else if x.fractionField.testBit (p.fractionBits - 1) then .quiet
    else .signaling
  else if x.exponentField = 0 then
    if x.fractionField = 0 then .zero x.sign else .subnormal x.sign
  else .normal x.sign

/-! ## The classes in terms of the fields -/

theorem exponentField_le (x : FloatBits p) : x.exponentField ≤ 2 ^ p.exponentBits - 1 := by
  have hlt : x.exponentField < 2 ^ p.exponentBits := BitVec.isLt _
  omega

/-- The fraction field tells NaNs from infinities. -/
theorem isNaN_iff_fields : x.isNaN = true ↔
    x.exponentField = 2 ^ p.exponentBits - 1 ∧ x.fractionField ≠ 0 := by
  have hle := x.exponentField_le
  rw [← Bool.not_eq_false, isNaN_eq_false_iff, isFinite_iff_exponentField, isInfinite_iff_fields]
  omega

theorem magnitude_eq_fields (x : FloatBits p) :
    x.exponentField * 2 ^ p.fractionBits + x.fractionField = x.magnitude := by
  rw [exponentField_eq, fractionField_eq]
  exact Nat.div_add_mod' x.magnitude (2 ^ p.fractionBits)

theorem isZero_iff_fields : x.isZero = true ↔ x.exponentField = 0 ∧ x.fractionField = 0 := by
  have hpos : 2 ^ p.fractionBits ≠ 0 := by positivity
  rw [isZero_iff, ← magnitude_eq_fields, Nat.add_eq_zero_iff, Nat.mul_eq_zero, or_iff_left hpos]

theorem isSubnormal_iff_fields :
    x.isSubnormal = true ↔ x.exponentField = 0 ∧ x.fractionField ≠ 0 := by
  have hpos : 0 < 2 ^ p.fractionBits := by positivity
  have hbelow : x.magnitude < 2 ^ p.fractionBits ↔ x.exponentField = 0 := by
    rw [exponentField_eq, Nat.div_eq_zero_iff, or_iff_right hpos.ne']
  rw [isSubnormal, Bool.and_eq_true, decide_eq_true_iff, decide_eq_true_iff, Nat.one_shiftLeft,
    hbelow, and_comm]
  refine and_congr_right fun hexponent => ?_
  rw [← magnitude_eq_fields, hexponent, Nat.zero_mul, Nat.zero_add, Nat.pos_iff_ne_zero]

/-- The top bit of the fraction tells quiet NaNs from signaling ones. -/
theorem isSignaling_iff_fields : x.isSignaling = true ↔
    x.isNaN = true ∧ x.fractionField.testBit (p.fractionBits - 1) = false := by
  have htop : p.fractionBits - 1 < p.fractionBits := Nat.sub_one_lt p.fractionBits_pos.ne'
  rw [isSignaling, Bool.and_eq_true, beq_iff_eq, Precision.quietBit, Nat.one_shiftLeft,
    fractionField_eq, Nat.testBit_mod_two_pow, decide_eq_true htop, Bool.true_and,
    Nat.testBit_eq_decide_div_mod_eq, decide_eq_false_iff_not, ← ne_eq, Nat.mod_two_ne_one]

theorem isNaN_numberClass (x : FloatBits p) : x.numberClass.isNaN = x.isNaN := by
  rw [Bool.eq_iff_iff, isNaN_iff_fields, numberClass]
  split_ifs <;> simp_all [NumberClass.isNaN]

theorem numberClass_eq_infinite_iff :
    x.numberClass = .infinite b ↔ x.isInfinite = true ∧ x.sign = b := by
  rw [isInfinite_iff_fields, numberClass]
  split_ifs <;> simp_all

theorem numberClass_eq_zero_iff : x.numberClass = .zero b ↔ x.isZero = true ∧ x.sign = b := by
  have hpos : 2 ^ p.exponentBits - 1 ≠ 0 := by cases p <;> decide
  rw [isZero_iff_fields, numberClass]
  split_ifs <;> simp_all

/-! ## The mask -/

/-- The comparisons that give the mask tell the classes apart. -/
theorem numberClass_eq (x : FloatBits p) : x.numberClass =
    if x.isNaN then if x.isSignaling then .signaling else .quiet
    else if x.isInfinite then .infinite x.sign
    else if x.isZero then .zero x.sign
    else if x.isSubnormal then .subnormal x.sign
    else .normal x.sign := by
  have hpos : 2 ^ p.exponentBits - 1 ≠ 0 := by cases p <;> decide
  rw [numberClass]
  simp only [isNaN_iff_fields, isSignaling_iff_fields, isInfinite_iff_fields, isZero_iff_fields,
    isSubnormal_iff_fields]
  split_ifs <;> simp_all

/-- The mask has the bit of the class. -/
theorem classMask_eq (x : FloatBits p) : x.classMask = 1#32 <<< x.numberClass.place := by
  rw [classMask, numberClass_eq]
  cases x.sign with
  | true =>
    simp only [if_true]
    split_ifs <;> rfl
  | false =>
    simp only [Bool.false_eq_true, if_false]
    split_ifs <;> rfl

/-- The mask has no other bit. -/
theorem getLsbD_classMask (x : FloatBits p) (i : Nat) :
    x.classMask.getLsbD i = decide (i = x.numberClass.place) := by
  have hlt : x.numberClass.place < 32 := x.numberClass.place_lt.trans (by decide)
  rw [classMask_eq, ← BitVec.twoPow_eq, BitVec.getLsbD_twoPow, decide_eq_true hlt, Bool.true_and,
    decide_eq_decide, eq_comm]

/-! ## The other sign -/

theorem sign_flip (x : FloatBits p) : (x ^^^ BitVec.intMin p.width).sign = !x.sign := by
  have hwidth : 0 < p.width := by cases p <;> decide
  rw [sign, sign, BitVec.msb_xor, BitVec.msb_intMin, decide_eq_true hwidth, Bool.xor_true]

theorem magnitude_flip (x : FloatBits p) :
    (x ^^^ BitVec.intMin p.width).magnitude = x.magnitude := by
  have hlow : (BitVec.intMin p.width).toNat % 2 ^ p.magnitudeBits = 0 := by cases p <;> decide
  rw [magnitude_eq, magnitude_eq, BitVec.toNat_xor, Nat.xor_mod_two_pow, hlow, Nat.xor_zero]

/-- A number with the other sign is of the opposite class. -/
theorem numberClass_flip (x : FloatBits p) :
    (x ^^^ BitVec.intMin p.width).numberClass = x.numberClass.opposite := by
  rw [numberClass, numberClass, exponentField_eq, exponentField_eq, fractionField_eq,
    fractionField_eq, magnitude_flip, sign_flip]
  split_ifs <;> rfl

/-! ## Conversion to double precision -/

/-- A conversion to double precision gives an infinity or a zero for one only. -/
theorem kind_convert_double (x : FloatBits .single) (nan : NaN .double) :
    (x.convert .double nan).isInfinite = x.isInfinite ∧
      (x.convert .double nan).isZero = x.isZero := by
  cases hx : x.isNaN with
  | true =>
    rw [convert_of_isNaN .double hx, isInfinite_of_isNaN hx, isZero_of_isNaN hx]
    exact ⟨isInfinite_of_isNaN nan.2, isZero_of_isNaN nan.2⟩
  | false =>
    rcases isNaN_eq_false_iff.mp hx with hfinite | hinfinite
    · obtain ⟨hdouble, hvalue⟩ := convert_double nan hfinite
      constructor
      · rw [isInfinite_of_isFinite hdouble, isInfinite_of_isFinite hfinite]
      · rw [Bool.eq_iff_iff, isZero_iff, isZero_iff, ← value_eq_zero_iff, ← value_eq_zero_iff,
          hvalue]
    · have hdouble : (x.convert .double nan).isInfinite := by
        rw [convert_of_infinite .double hinfinite]
        exact isInfinite_infinity .double x.sign
      exact ⟨hdouble.trans hinfinite.symm,
        (isZero_of_isInfinite hdouble).trans (isZero_of_isInfinite hinfinite).symm⟩

/-- The mask of a pattern has one bit set, that of the class that the fields of the pattern give,
and no two classes have the same bit. If the pattern is a number, then the mask of the number with
the other sign is the mirrored one. And a conversion to double precision gives a NaN, an infinity or
a zero of either sign if and only if it is given one, whichever NaN the host gives for one. -/
theorem classMask_partition :
    Function.Injective NumberClass.place ∧
    (∀ (p : Precision) (x : FloatBits p), x.numberClass.place < 10 ∧
      (∀ i, x.classMask.getLsbD i = true ↔ i = x.numberClass.place) ∧
      (x.numberClass.isNaN = false → ∀ k ≤ 7,
        (x ^^^ BitVec.intMin p.width).classMask.getLsbD (7 - k) = x.classMask.getLsbD k)) ∧
    ∀ (x : FloatBits .single) (nan : NaN .double),
      (x.convert .double nan).numberClass.isNaN = x.numberClass.isNaN ∧
      (∀ b, (x.convert .double nan).numberClass = .infinite b ↔ x.numberClass = .infinite b) ∧
      ∀ b, (x.convert .double nan).numberClass = .zero b ↔ x.numberClass = .zero b := by
  refine ⟨NumberClass.place_injective, fun p x => ⟨x.numberClass.place_lt, fun i => ?_, ?_⟩,
    fun x nan => ?_⟩
  · rw [getLsbD_classMask, decide_eq_true_iff]
  · intro hx k hk
    have hplace := NumberClass.place_opposite hx
    rw [getLsbD_classMask, getLsbD_classMask, numberClass_flip, decide_eq_decide]
    omega
  · obtain ⟨hinfinite, hzero⟩ := kind_convert_double x nan
    -- a number keeps its sign
    have hsign : x.isNaN = false → (x.convert .double nan).sign = x.sign := sign_convert .double
    refine ⟨?_, fun b => ?_, fun b => ?_⟩
    · rw [isNaN_numberClass, isNaN_numberClass, isNaN_convert]
    · rw [numberClass_eq_infinite_iff, numberClass_eq_infinite_iff, hinfinite]
      exact and_congr_right fun hx => by rw [hsign (isNaN_of_isInfinite hx)]
    · rw [numberClass_eq_zero_iff, numberClass_eq_zero_iff, hzero]
      exact and_congr_right fun hx => by rw [hsign (isNaN_of_isZero hx)]

/-- The negative subnormal number next to the normal ones has bit 2 in its mask, and the positive
one has bit 5. -/
theorem classMask_partition_of_subnormal :
    NumberClass.isNaN (numberClass (p := .single) 0x807FFFFF#32) = false ∧
      (classMask (p := .single) 0x807FFFFF#32).getLsbD 2 = true ∧
      (classMask (p := .single) (0x807FFFFF#32 ^^^ BitVec.intMin 32)).getLsbD 5 = true := by
  obtain ⟨-, hmask, -⟩ := classMask_partition
  obtain ⟨-, hbits, hflip⟩ := hmask .single 0x807FFFFF#32
  have hnumber : NumberClass.isNaN (numberClass (p := .single) 0x807FFFFF#32) = false := by decide
  have hbit : (classMask (p := .single) 0x807FFFFF#32).getLsbD 2 = true :=
    (hbits 2).mpr (by decide)
  exact ⟨hnumber, hbit, (hflip hnumber 2 (by decide)).trans hbit⟩

end FloatBits
end Riscv32
