import Mathlib.Algebra.Order.Field.Rat
import Mathlib.Tactic.FieldSimp
import Mathlib.Tactic.LinearCombination
import Mathlib.Tactic.Linarith
import Mathlib.Tactic.Ring
import Riscv32.Float.Round

/-!
# The value of a floating-point number

A finite pattern stands for a rational number that is read off its three fields: the sign, the
biased exponent, and the fraction, which has a leading one before it unless the exponent field is
zero. This is the number of units of the pattern, divided by the number of units in one. The units
grow with the magnitude, and within one binade in equal steps.

## Main definitions

* `FloatBits.exponentField`, `FloatBits.fractionField` — the fields below the sign.
* `FloatBits.value` — the rational number that a finite pattern stands for.

## Main statements

* `FloatBits.isFinite_iff_exponentField` and `FloatBits.isInfinite_iff_fields`, the classes in terms
  of the fields.
* `FloatBits.value_eq`, the value in terms of the units.
* `FloatBits.unitsOf_add`, the units of a significand and an exponent.
* `FloatBits.strictMono_unitsOf`, larger magnitudes have larger values.
-/
namespace Riscv32

namespace Precision

variable (p : Precision)

/-- What is added to an exponent in the exponent field. -/
def bias : Precision → Nat
  | single => 127
  | double => 1023

/-- The size of the exponent field. -/
def exponentBits : Precision → Nat
  | single => 8
  | double => 11

theorem magnitudeBits_eq : p.magnitudeBits = p.exponentBits + p.fractionBits := by cases p <;> rfl

theorem width_eq : p.width = p.magnitudeBits + 1 := by cases p <;> rfl

theorem unitExponent_add_one : p.unitExponent + 1 = p.bias + p.fractionBits := by cases p <;> rfl

theorem fractionBits_pos : 0 < p.fractionBits := by cases p <;> decide

theorem infinity_eq : p.infinity = (2 ^ p.exponentBits - 1) * 2 ^ p.fractionBits := by
  cases p <;> decide

theorem infinity_pos : 0 < p.infinity := by cases p <;> decide

theorem infinity_lt : p.infinity < 2 ^ p.magnitudeBits := by cases p <;> decide

end Precision

namespace FloatBits

variable {p : Precision} {x y : FloatBits p} {m k s : Nat}

/-- The exponent field. -/
def exponentField (x : FloatBits p) : Nat :=
  (x.extractLsb' p.fractionBits p.exponentBits).toNat

/-- The fraction field. -/
def fractionField (x : FloatBits p) : Nat := (x.extractLsb' 0 p.fractionBits).toNat

/-- The absolute value of a finite pattern. -/
def absValue (x : FloatBits p) : ℚ :=
  if x.exponentField = 0 then x.fractionField / 2 ^ p.fractionBits * 2 ^ (1 - p.bias : ℤ)
  else (1 + x.fractionField / 2 ^ p.fractionBits) * 2 ^ (x.exponentField - p.bias : ℤ)

/-- The number that a finite pattern stands for. -/
def value (x : FloatBits p) : ℚ := if x.sign then -x.absValue else x.absValue

/-! ## Patterns of a sign and a magnitude -/

theorem magnitude_eq (x : FloatBits p) : x.magnitude = x.toNat % 2 ^ p.magnitudeBits := by
  rw [magnitude, Nat.one_shiftLeft]

theorem sign_eq (x : FloatBits p) : x.sign = decide (2 ^ p.magnitudeBits ≤ x.toNat) := by
  rw [sign, BitVec.msb_eq_decide, Precision.magnitudeBits]

/-- A pattern is its sign and its magnitude. -/
theorem toNat_eq (x : FloatBits p) :
    x.toNat = x.sign.toNat * 2 ^ p.magnitudeBits + x.magnitude := by
  have hlt : x.toNat < 2 ^ p.magnitudeBits * 2 :=
    calc x.toNat
      _ < 2 ^ p.width := x.isLt
      _ = 2 ^ p.magnitudeBits * 2 := by rw [p.width_eq, Nat.pow_succ]
  rw [magnitude_eq, sign_eq]
  by_cases hx : 2 ^ p.magnitudeBits ≤ x.toNat
  · rw [decide_eq_true hx, Bool.toNat_true, Nat.mod_eq_sub_mod hx, Nat.mod_eq_of_lt (by omega)]
    omega
  · rw [decide_eq_false hx, Bool.toNat_false, Nat.mod_eq_of_lt (by omega)]
    omega

theorem ext_sign_magnitude (hsign : x.sign = y.sign) (hmagnitude : x.magnitude = y.magnitude) :
    x = y := by
  apply BitVec.eq_of_toNat_eq
  rw [toNat_eq, toNat_eq, hsign, hmagnitude]

theorem toNat_ofMagnitude (b : Bool) (hm : m < 2 ^ p.magnitudeBits) :
    (ofMagnitude p b m).toNat = b.toNat * 2 ^ p.magnitudeBits + m := by
  have hb : b.toNat ≤ 1 := Bool.toNat_le b
  have hle : b.toNat * 2 ^ p.magnitudeBits ≤ 1 * 2 ^ p.magnitudeBits := Nat.mul_le_mul_right _ hb
  rw [ofMagnitude, BitVec.toNat_ofNat, Nat.one_shiftLeft, p.width_eq, Nat.pow_succ]
  exact Nat.mod_eq_of_lt (by omega)

theorem magnitude_ofMagnitude (b : Bool) (hm : m < 2 ^ p.magnitudeBits) :
    (ofMagnitude p b m).magnitude = m := by
  rw [magnitude_eq, toNat_ofMagnitude b hm, Nat.mul_add_mod_self_right, Nat.mod_eq_of_lt hm]

theorem sign_ofMagnitude (b : Bool) (hm : m < 2 ^ p.magnitudeBits) :
    (ofMagnitude p b m).sign = b := by
  rw [sign_eq, toNat_ofMagnitude b hm]
  cases b <;> simp [hm]

/-! ## Fields -/

theorem exponentField_eq (x : FloatBits p) :
    x.exponentField = x.magnitude / 2 ^ p.fractionBits := by
  rw [exponentField, BitVec.extractLsb'_toNat, Nat.shiftRight_eq_div_pow, magnitude_eq,
    p.magnitudeBits_eq, Nat.add_comm, Nat.pow_add, Nat.mod_mul_right_div_self]

theorem fractionField_eq (x : FloatBits p) :
    x.fractionField = x.magnitude % 2 ^ p.fractionBits := by
  rw [fractionField, BitVec.extractLsb'_toNat, Nat.shiftRight_zero, magnitude_eq,
    p.magnitudeBits_eq, Nat.add_comm, Nat.pow_add, Nat.mod_mul_right_mod]

/-! ## Classes -/

theorem isFinite_iff : x.isFinite = true ↔ x.magnitude < p.infinity := decide_eq_true_iff

theorem isInfinite_iff : x.isInfinite = true ↔ x.magnitude = p.infinity := beq_iff_eq

theorem isZero_iff : x.isZero = true ↔ x.magnitude = 0 := beq_iff_eq

theorem isNaN_iff : x.isNaN = true ↔ p.infinity < x.magnitude := decide_eq_true_iff

theorem isNaN_eq_false_iff : x.isNaN = false ↔ x.isFinite = true ∨ x.isInfinite = true := by
  rw [isFinite_iff, isInfinite_iff, ← Bool.not_eq_true, isNaN_iff]
  omega

theorem isNaN_of_isFinite (hx : x.isFinite) : x.isNaN = false := isNaN_eq_false_iff.mpr (.inl hx)

theorem isNaN_of_isInfinite (hx : x.isInfinite) : x.isNaN = false :=
  isNaN_eq_false_iff.mpr (.inr hx)

theorem isInfinite_of_isFinite (hx : x.isFinite) : x.isInfinite = false := by
  rw [← Bool.not_eq_true, isInfinite_iff]
  exact (isFinite_iff.mp hx).ne

theorem isZero_of_isInfinite (hx : x.isInfinite) : x.isZero = false := by
  rw [← Bool.not_eq_true, isZero_iff, isInfinite_iff.mp hx]
  exact p.infinity_pos.ne'

theorem not_isZero_of_isInfinite (hx : x.isInfinite) : ¬x.isZero :=
  ne_true_of_eq_false (isZero_of_isInfinite hx)

theorem isInfinite_of_isNaN (hx : x.isNaN) : x.isInfinite = false := by
  rw [← Bool.not_eq_true, isInfinite_iff]
  exact (isNaN_iff.mp hx).ne'

theorem isZero_of_isNaN (hx : x.isNaN) : x.isZero = false := by
  rw [← Bool.not_eq_true, isZero_iff]
  exact (Nat.zero_lt_of_lt (isNaN_iff.mp hx)).ne'

theorem isNaN_of_isZero (hx : x.isZero) : x.isNaN = false := by
  rw [← Bool.not_eq_true]
  intro hnan
  rw [isZero_of_isNaN hnan] at hx
  cases hx

/-- An exponent field of ones tells infinities and NaNs from the numbers. -/
theorem isFinite_iff_exponentField :
    x.isFinite = true ↔ x.exponentField < 2 ^ p.exponentBits - 1 := by
  rw [isFinite_iff, p.infinity_eq, exponentField_eq, Nat.div_lt_iff_lt_mul (by positivity)]

/-- The fraction field tells infinities from NaNs. -/
theorem isInfinite_iff_fields : x.isInfinite = true ↔
    x.exponentField = 2 ^ p.exponentBits - 1 ∧ x.fractionField = 0 := by
  rw [isInfinite_iff, p.infinity_eq, exponentField_eq, fractionField_eq]
  have hsplit := Nat.mod_add_div' x.magnitude (2 ^ p.fractionBits)
  constructor
  · intro h
    rw [h, Nat.mul_div_cancel _ (by positivity), Nat.mul_mod_left]
    exact ⟨rfl, rfl⟩
  · rintro ⟨hexponent, hfraction⟩
    rw [← hsplit, hexponent, hfraction, Nat.zero_add]

/-! ## Units -/

theorem unitsOf_eq (p : Precision) (m : Nat) : unitsOf p m =
    if m / 2 ^ p.fractionBits = 0 then m % 2 ^ p.fractionBits
    else (2 ^ p.fractionBits + m % 2 ^ p.fractionBits) * 2 ^ (m / 2 ^ p.fractionBits - 1) := by
  simp only [unitsOf, Nat.one_shiftLeft]

/-- The units of a significand and an exponent. The significand has a leading one, or else the
exponent is the least one; it may have been rounded up to a power of two. -/
theorem unitsOf_add (hs : s ≤ 2 * 2 ^ p.fractionBits) (hk : 2 ^ p.fractionBits ≤ s ∨ k = 0) :
    unitsOf p (s + k * 2 ^ p.fractionBits) = s * 2 ^ k := by
  have hpos : 0 < 2 ^ p.fractionBits := by positivity
  rw [unitsOf_eq, Nat.add_mul_div_right _ _ hpos, Nat.add_mul_mod_self_right]
  generalize 2 ^ p.fractionBits = b at hs hk hpos
  rcases Nat.lt_or_ge s b with hlow | hlow
  · obtain rfl : k = 0 := hk.resolve_left (by omega)
    rw [Nat.div_eq_of_lt hlow, Nat.mod_eq_of_lt hlow, if_pos rfl, Nat.pow_zero, Nat.mul_one]
  · rcases Nat.lt_or_ge s (2 * b) with hhigh | hhigh
    · have hdiv : s / b = 1 := Nat.div_eq_of_lt_le (by omega) (by omega)
      have hmod : s % b = s - b := by
        rw [Nat.mod_eq_sub_mod hlow, Nat.mod_eq_of_lt (by omega)]
      have hexponent : 1 + k - 1 = k := by omega
      rw [hdiv, hmod, if_neg (by omega), hexponent, Nat.add_sub_cancel' hlow]
    · obtain rfl : s = 2 * b := by omega
      have hexponent : 2 + k - 1 = k + 1 := by omega
      rw [Nat.mul_div_cancel _ hpos, Nat.mul_mod_left, if_neg (by omega), hexponent, Nat.add_zero,
        Nat.pow_succ]
      ring

/-- Every magnitude is made of a significand and an exponent. -/
theorem exists_significand (p : Precision) (m : Nat) : ∃ s k, m = s + k * 2 ^ p.fractionBits ∧
    s < 2 * 2 ^ p.fractionBits ∧ (2 ^ p.fractionBits ≤ s ∨ k = 0) := by
  have hpos : 0 < 2 ^ p.fractionBits := by positivity
  have hsplit := Nat.mod_add_div' m (2 ^ p.fractionBits)
  have hlt := Nat.mod_lt m hpos
  cases hdiv : m / 2 ^ p.fractionBits with
  | zero =>
    rw [hdiv] at hsplit
    exact ⟨m % 2 ^ p.fractionBits, 0, hsplit.symm, by omega, .inr rfl⟩
  | succ k =>
    rw [hdiv, Nat.succ_mul] at hsplit
    exact ⟨m % 2 ^ p.fractionBits + 2 ^ p.fractionBits, k, by omega, by omega, .inl (by omega)⟩

/-- Larger magnitudes have larger values. -/
theorem strictMono_unitsOf (p : Precision) : StrictMono (unitsOf p) := by
  apply strictMono_nat_of_lt_succ
  intro m
  obtain ⟨s, k, rfl, hs, hk⟩ := exists_significand p m
  have hnext : s + k * 2 ^ p.fractionBits + 1 = s + 1 + k * 2 ^ p.fractionBits := by omega
  rw [hnext, unitsOf_add hs.le hk, unitsOf_add (by omega) (hk.imp_left fun h => by omega)]
  exact Nat.mul_lt_mul_of_pos_right (Nat.lt_succ_self s) (by positivity)

/-- A significand times a power of two is the value of some magnitude. -/
theorem exists_unitsOf (p : Precision) (k : Nat) (hs : s < 2 * 2 ^ p.fractionBits) :
    ∃ m, unitsOf p m = s * 2 ^ k := by
  induction k generalizing s with
  | zero => exact ⟨s + 0 * 2 ^ p.fractionBits, unitsOf_add hs.le (.inr rfl)⟩
  | succ k ih =>
    rcases Nat.lt_or_ge s (2 ^ p.fractionBits) with hlow | hlow
    · obtain ⟨m, hm⟩ := ih (s := 2 * s) (by omega)
      exact ⟨m, hm.trans (by ring)⟩
    · exact ⟨s + (k + 1) * 2 ^ p.fractionBits, unitsOf_add hs.le (.inl hlow)⟩

/-! ## The value -/

/-- The absolute value is a number of units. -/
theorem absValue_eq (x : FloatBits p) : x.absValue = x.units / 2 ^ p.unitExponent := by
  have hunit : (2 : ℚ) ^ p.unitExponent * 2 = 2 ^ p.bias * 2 ^ p.fractionBits := by
    rw [← pow_succ, p.unitExponent_add_one, pow_add]
  rw [absValue, units, unitsOf_eq, ← exponentField_eq, ← fractionField_eq]
  split
  case isTrue =>
    rw [zpow_sub₀ two_ne_zero, zpow_one, zpow_natCast]
    field_simp
    linear_combination x.fractionField * hunit
  case isFalse hne =>
    obtain ⟨e, he⟩ := Nat.exists_eq_succ_of_ne_zero hne
    rw [he, zpow_sub₀ two_ne_zero, zpow_natCast, zpow_natCast, Nat.succ_sub_one, pow_succ]
    push_cast
    field_simp
    linear_combination hunit

/-- The value is a number of units, with the sign. -/
theorem value_eq (x : FloatBits p) : x.value = x.signedUnits / 2 ^ p.unitExponent := by
  rw [value, signedUnits, absValue_eq]
  split
  · push_cast
    ring
  · push_cast
    ring

theorem one_eq (p : Precision) : one p = 2 ^ p.unitExponent := Nat.one_shiftLeft _

theorem cast_one (p : Precision) : (one p : ℚ) = 2 ^ p.unitExponent := by
  rw [one_eq, Nat.cast_pow, Nat.cast_ofNat]

theorem one_pos (p : Precision) : 0 < one p := by
  rw [one_eq]
  positivity

end FloatBits
end Riscv32
