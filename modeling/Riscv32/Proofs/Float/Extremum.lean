import Mathlib.Order.WithBot
import Riscv32.Proofs.Float.Invalid

/-!
# The lesser and the greater of two numbers

The patterns that are numbers are ordered by their values, with the infinities at the ends and the
negative zero just below the positive one. In this order no two patterns are equal, so the lesser
and the greater of two numbers are both of them, in whatever order the operands stand. The order is
that of an integer which is made of the rank and the sign, and it is there that the cases are
compared.

## Main definitions

* `FloatBits.extended` — the value of a number or an infinity.
* `FloatBits.Precedes` — the order of the values, refined on the zeros.
* `FloatBits.Extrema` — two numbers and their least and greatest one.

## Main statements

* `FloatBits.precedes_iff`, the order in terms of an integer.
* `FloatBits.extrema_extremum`, for numbers.
* `FloatBits.extremum_comm`, for all patterns.
-/
namespace Riscv32.FloatBits

variable {p : Precision} {x y : FloatBits p}

/-! ## The order -/

/-- The value of a pattern that is a number, be it finite or not. -/
def extended (x : FloatBits p) : WithBot (WithTop ℚ) :=
  if x.isInfinite then if x.sign then ⊥ else ⊤ else ((x.value : WithTop ℚ) : WithBot (WithTop ℚ))

/-- The order of the values, with the negative zero below the positive one. -/
def Precedes (x y : FloatBits p) : Prop :=
  x.extended < y.extended ∨ x.extended = y.extended ∧ (y.sign → x.sign)

/-- The place in the order. It is twice the rank, and one more for the positive sign. -/
def position (x : FloatBits p) : ℤ := 2 * x.rank + if x.sign then 0 else 1

theorem position_injective : Function.Injective (position (p := p)) := by
  intro x y h
  unfold position rank at h
  split_ifs at h with hx hy hy
  · exact ext_sign_magnitude (hx.trans hy.symm) (by omega)
  · omega
  · omega
  · exact ext_sign_magnitude ((Bool.eq_false_iff.mpr hx).trans (Bool.eq_false_iff.mpr hy).symm)
      (by omega)

theorem signedUnits_lt (h : x.rank < y.rank) : x.signedUnits < y.signedUnits := by
  have hxy : x.magnitude < y.magnitude → x.units < y.units := fun h => strictMono_unitsOf p h
  have hyx : y.magnitude < x.magnitude → y.units < x.units := fun h => strictMono_unitsOf p h
  have hxzero := units_eq_zero_iff (x := x)
  have hyzero := units_eq_zero_iff (x := y)
  unfold rank at h
  unfold signedUnits
  split_ifs at h ⊢ <;> omega

theorem value_lt (h : x.rank < y.rank) : x.value < y.value := by
  have hunit : (0 : ℚ) < 2 ^ p.unitExponent := by positivity
  rw [value_eq, value_eq, div_lt_div_iff_of_pos_right hunit, Int.cast_lt]
  exact signedUnits_lt h

/-- The infinities have the least and the greatest rank of all numbers. -/
theorem rank_bounds (hx : ¬x.isNaN) : -(p.infinity : ℤ) ≤ x.rank ∧ x.rank ≤ p.infinity := by
  rw [isNaN_iff] at hx
  unfold rank
  split <;> omega

theorem rank_of_isInfinite (hx : x.isInfinite) :
    x.rank = if x.sign then -(p.infinity : ℤ) else p.infinity := by
  rw [rank, isInfinite_iff.mp hx]

/-- The values of numbers are in the order of their ranks. -/
theorem extended_lt (hx : ¬x.isNaN) (hy : ¬y.isNaN) (h : x.rank < y.rank) :
    x.extended < y.extended := by
  have hxbounds := rank_bounds hx
  have hybounds := rank_bounds hy
  -- the positive infinity is below nothing, and nothing is below the negative one
  have hnegative (hi : x.isInfinite) : x.sign := by
    by_contra hs
    rw [rank_of_isInfinite hi, if_neg hs] at h
    omega
  have hpositive (hi : y.isInfinite) : ¬y.sign := by
    intro hs
    rw [rank_of_isInfinite hi, if_pos hs] at h
    omega
  unfold extended
  split_ifs with hxi hxs hyi hys hyi hys hyi hys
  · exact absurd hys (hpositive hyi)
  · exact bot_lt_top
  · exact WithBot.bot_lt_coe _
  · exact absurd (hnegative hxi) hxs
  · exact absurd (hnegative hxi) hxs
  · exact absurd (hnegative hxi) hxs
  · exact absurd hys (hpositive hyi)
  · exact WithBot.coe_lt_coe.mpr (WithTop.coe_lt_top _)
  · exact WithBot.coe_lt_coe.mpr (WithTop.coe_lt_coe.mpr (value_lt h))

theorem extended_of_isZero (hx : x.isZero) : x.extended = ((0 : ℚ) : WithTop ℚ) := by
  have hfinite : ¬x.isInfinite := fun h => not_isZero_of_isInfinite h hx
  rw [extended, if_neg hfinite, value_eq_zero_iff.mpr (isZero_iff.mp hx)]

/-- Patterns of the same rank have the same value, and they are zeros if they are not the same. -/
theorem extended_eq (h : x.rank = y.rank) : x.extended = y.extended := by
  unfold rank at h
  by_cases hsign : x.sign = y.sign
  · have hmagnitude : x.magnitude = y.magnitude := by split_ifs at h <;> simp_all
    rw [ext_sign_magnitude hsign hmagnitude]
  · have hzero : x.magnitude = 0 ∧ y.magnitude = 0 := by split_ifs at h <;> simp_all
    rw [extended_of_isZero (isZero_iff.mpr hzero.1), extended_of_isZero (isZero_iff.mpr hzero.2)]

/-- The order is that of the places. -/
theorem precedes_iff (hx : ¬x.isNaN) (hy : ¬y.isNaN) :
    x.Precedes y ↔ x.position ≤ y.position := by
  unfold Precedes position
  rcases lt_trichotomy x.rank y.rank with h | h | h
  · exact iff_of_true (.inl (extended_lt hx hy h)) (by split_ifs <;> omega)
  · rw [extended_eq h, h]
    cases x.sign <;> cases y.sign <;> simp
  · have hlt := extended_lt hy hx h
    refine iff_of_false ?_ (by split_ifs <;> omega)
    rintro (hgt | ⟨heq, -⟩)
    · exact lt_asymm hlt hgt
    · exact hlt.ne' heq

/-! ## The lesser and the greater -/

/-- The later one of two numbers is the greater one, and the earlier one the lesser. -/
theorem extremum_eq (greater : Bool) (hx : ¬x.isNaN) (hy : ¬y.isNaN) : x.extremum greater y =
    if x.position ≤ y.position then cond greater y x else cond greater x y := by
  have hnumbers : x.extremum greater y = if x.rank = y.rank then cond (x.sign == greater) y x
      else if x.rank < y.rank then cond greater y x else cond greater x y := by
    rw [Bool.not_eq_true] at hx hy
    simp only [extremum, eq, lt, hx, hy, Bool.not_false, Bool.true_and, beq_iff_eq,
      Bool.false_eq_true, if_false, cond_eq_ite]
    cases greater <;> by_cases h : x.rank < y.rank <;> simp [h]
  rw [hnumbers]
  unfold position
  rcases lt_trichotomy x.rank y.rank with h | h | h
  · rw [if_neg h.ne, if_pos h, if_pos (by split_ifs <;> omega)]
  · by_cases hsign : x.sign = y.sign
    · have heq : x = y := position_injective (by rw [position, position, h, hsign])
      rw [heq]
      simp
    · -- zeros of different signs
      rw [if_pos h, h]
      cases hxs : x.sign <;> cases hys : y.sign <;> cases greater <;> simp_all
  · rw [if_neg h.ne', if_neg h.not_gt, if_neg (by split_ifs <;> omega)]

/-- The lesser and the greater of two patterns do not depend on the order of the operands. -/
theorem extremum_comm (greater : Bool) (x y : FloatBits p) :
    x.extremum greater y = y.extremum greater x := by
  by_cases hx : x.isNaN <;> by_cases hy : y.isNaN
  · simp [extremum, hx, hy]
  · simp [extremum, hx, hy]
  · simp [extremum, hx, hy]
  · rw [extremum_eq greater hx hy, extremum_eq greater hy hx]
    rcases lt_trichotomy x.position y.position with h | h | h
    · rw [if_pos h.le, if_neg h.not_ge]
    · rw [position_injective h]
    · rw [if_neg h.not_ge, if_pos h.le]

/-- Two numbers with the lesser and the greater of them. -/
structure Extrema (x y least greatest : FloatBits p) : Prop where
  perm : [least, greatest].Perm [x, y]
  least_precedes : least.Precedes x ∧ least.Precedes y
  precedes_greatest : x.Precedes greatest ∧ y.Precedes greatest

theorem extrema_extremum (hx : ¬x.isNaN) (hy : ¬y.isNaN) :
    Extrema x y (x.extremum false y) (x.extremum true y) := by
  have hxx := (precedes_iff hx hx).mpr le_rfl
  have hyy := (precedes_iff hy hy).mpr le_rfl
  rw [extremum_eq false hx hy, extremum_eq true hx hy]
  rcases le_or_gt x.position y.position with h | h
  · have hxy := (precedes_iff hx hy).mpr h
    rw [if_pos h, if_pos h]
    exact ⟨.refl _, ⟨hxx, hxy⟩, hxy, hyy⟩
  · have hyx := (precedes_iff hy hx).mpr h.le
    rw [if_neg h.not_ge, if_neg h.not_ge]
    exact ⟨.swap .., ⟨hyx, hyy⟩, hxx, hyx⟩

end Riscv32.FloatBits
