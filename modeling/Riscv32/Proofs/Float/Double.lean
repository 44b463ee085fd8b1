import Riscv32.Proofs.Float.Extremum

/-!
# Conversions by way of double precision

The conversions are defined on exact integers and units. A host that has no such numbers does all
of it in double precision: it widens the operand, rounds it to an integral number, compares this
one with the ends of the range and with the operand, and cuts it to an integer in the end. Every
number of single precision and every word is a number of double precision, and rounding a number to
an integral one gives a number of the same format, so no step loses anything and the outcome is the
same.

## Main definitions

* `FloatBits.widened` — the number in double precision.
* `FloatBits.cutTo` — the integer that a number is cut to.
* `FloatBits.toIntByRounding` — the conversion to an integer with numbers of one format only.

## Main statements

* `FloatBits.value_roundIntegral` and `FloatBits.sign_roundIntegral`, the integral number has the
  value of the rounded integer and the sign of the operand.
* `FloatBits.toIntIn_eq`, for conversions to integers in one format, and
  `FloatBits.toWord_eq_double`, for those to words in double precision.
* `FloatBits.isInteger_eq_double` and `FloatBits.convertFlags_eq_double`, for the numbers that a
  conversion changed.
-/
namespace Riscv32.FloatBits

variable {p q : Precision} {x y : FloatBits p} {mode : RoundingMode} {lo hi i : ℤ}

/-! ## Comparisons -/

theorem extended_of_finite (hx : x.isFinite) : x.extended = ((x.value : WithTop ℚ) :) := by
  rw [extended, isInfinite_of_isFinite hx, if_neg Bool.false_ne_true]

theorem extended_of_infinite (hx : x.isInfinite) : x.extended = if x.sign then ⊥ else ⊤ := by
  rw [extended, if_pos hx]

/-- The comparison of numbers is that of their values. -/
theorem lt_iff (hx : x.isNaN = false) (hy : y.isNaN = false) :
    x.lt y = true ↔ x.extended < y.extended := by
  rw [lt, hx, hy, Bool.not_false, Bool.true_and, Bool.true_and, decide_eq_true_iff]
  rw [← Bool.not_eq_true] at hx hy
  refine ⟨extended_lt hx hy, fun h => not_le.mp fun hle => ?_⟩
  rcases hle.lt_or_eq with hgt | heq
  · exact lt_asymm h (extended_lt hy hx hgt)
  · exact h.ne (extended_eq heq).symm

/-- Numbers are equal exactly if their values are, so that the zeros are. -/
theorem eq_iff (hx : x.isNaN = false) (hy : y.isNaN = false) :
    x.eq y = true ↔ x.extended = y.extended := by
  rw [eq, hx, hy, Bool.not_false, Bool.true_and, Bool.true_and, beq_iff_eq]
  rw [← Bool.not_eq_true] at hx hy
  refine ⟨extended_eq, fun h => ?_⟩
  rcases lt_trichotomy x.rank y.rank with hlt | heq | hgt
  · exact absurd h (extended_lt hx hy hlt).ne
  · exact heq
  · exact absurd h (extended_lt hy hx hgt).ne'

theorem lt_iff_value (hx : x.isFinite) (hy : y.isFinite) : x.lt y = true ↔ x.value < y.value := by
  rw [lt_iff (isNaN_of_isFinite hx) (isNaN_of_isFinite hy), extended_of_finite hx,
    extended_of_finite hy, WithBot.coe_lt_coe, WithTop.coe_lt_coe]

theorem eq_iff_value (hx : x.isFinite) (hy : y.isFinite) : x.eq y = true ↔ x.value = y.value := by
  rw [eq_iff (isNaN_of_isFinite hx) (isNaN_of_isFinite hy), extended_of_finite hx,
    extended_of_finite hy, WithBot.coe_inj, WithTop.coe_inj]

/-! ## Integral numbers -/

/-- An integer is not rounded. -/
theorem rounds_intCast (mode : RoundingMode) (i : ℤ) : mode.Rounds i i := by
  cases mode <;> simp [RoundingMode.Rounds]

theorem roundedInt_of_value (mode : RoundingMode) (hx : x.value = i) : x.roundedInt mode = i := by
  have h := rounds_roundedInt x mode
  rw [hx] at h
  exact h.unique (rounds_intCast mode i)

theorem roundInteger_le (mode : RoundingMode) (negative : Bool) (num den : Nat) :
    mode.roundInteger negative num den ≤ num / den + 1 := by
  have hstep (up : Bool) : (if up then num / den + 1 else num / den) ≤ num / den + 1 := by
    split <;> omega
  exact hstep _

theorem natAbs_roundedInt (x : FloatBits p) (mode : RoundingMode) :
    (x.roundedInt mode).natAbs = mode.roundInteger x.sign x.units (one p) := by
  simp only [roundedInt]
  split <;> omega

/-- A number is an integer already, or it has a fraction and a significand holds the integer that it
is rounded to. -/
theorem integral_or_small (x : FloatBits p) (mode : RoundingMode) :
    x.value = x.roundedInt mode ∨ (x.roundedInt mode).natAbs < 2 * 2 ^ p.fractionBits := by
  obtain ⟨s, k, hm, hs, hk⟩ := exists_significand p x.magnitude
  have hunits : x.units = s * 2 ^ k := by rw [units, hm, unitsOf_add hs.le hk]
  rcases Nat.lt_or_ge k p.unitExponent with hlow | hhigh
  · right
    have hlt : x.units < 2 ^ p.fractionBits * one p :=
      calc x.units
        _ < 2 * 2 ^ p.fractionBits * 2 ^ k := by
          rw [hunits]
          exact Nat.mul_lt_mul_of_pos_right hs (by positivity)
        _ = 2 ^ p.fractionBits * 2 ^ (k + 1) := by ring
        _ ≤ 2 ^ p.fractionBits * one p := by
          rw [one_eq]
          exact Nat.mul_le_mul_left _ (Nat.pow_le_pow_right two_pos hlow)
    have hquotient := (Nat.div_lt_iff_lt_mul (one_pos p)).mpr hlt
    have hrounded := roundInteger_le mode x.sign x.units (one p)
    have hpos : 0 < 2 ^ p.fractionBits := by positivity
    rw [natAbs_roundedInt]
    omega
  · left
    have hinteger : (x.units : ℚ) = (s * 2 ^ (k - p.unitExponent) : ℕ) * 2 ^ p.unitExponent := by
      rw [hunits]
      push_cast
      rw [mul_assoc, ← pow_add, Nat.sub_add_cancel hhigh]
    have hvalue : x.value = ((if x.sign then -(s * 2 ^ (k - p.unitExponent) : ℕ)
        else (s * 2 ^ (k - p.unitExponent) : ℕ) : ℤ) : ℚ) := by
      rw [value_eq_of_units hinteger]
      split <;> push_cast <;> rfl
    rw [roundedInt_of_value mode hvalue, hvalue]

theorem nearest_roundIntegral (mode : RoundingMode) (hx : x.isFinite) :
    Nearest (x.roundedInt mode : ℚ) (x.roundIntegral mode) := by
  have h := nearest_round p x.sign (mode.roundInteger x.sign x.units (one p) * one p) Nat.one_pos
  rw [Nat.cast_one, div_one, Nat.cast_mul, ← neg_mul, ← ite_mul, cast_one,
    mul_div_cancel_right₀ _ (by positivity)] at h
  rw [roundIntegral, if_pos hx, roundedInt]
  exact_mod_cast h

/-- Rounding a finite number to an integral one gives the integer that it is rounded to, without any
further rounding. -/
theorem value_roundIntegral (mode : RoundingMode) (hx : x.isFinite) :
    (x.roundIntegral mode).isFinite ∧ (x.roundIntegral mode).value = x.roundedInt mode := by
  have h := nearest_roundIntegral mode hx
  rcases integral_or_small x mode with hinteger | hsmall
  · rw [← hinteger] at h ⊢
    exact h.value_eq hx
  · obtain ⟨hfinite, hvalue⟩ := ofInt_exact hsmall
    rw [← hvalue] at h ⊢
    exact h.value_eq hfinite

/-- The sign is kept, so that a number that is rounded to zero gives the zero of its sign. -/
theorem sign_roundIntegral (x : FloatBits p) (mode : RoundingMode) :
    (x.roundIntegral mode).sign = x.sign := by
  rw [roundIntegral]
  split
  · exact sign_round ..
  · rfl

theorem roundIntegral_of_infinite (mode : RoundingMode) (hx : x.isInfinite) :
    x.roundIntegral mode = x := by
  rw [roundIntegral, if_neg]
  rw [isFinite_iff, isInfinite_iff.mp hx]
  exact lt_irrefl _

/-! ## To integers in one format -/

/-- The integer that a number is cut to toward zero, or the nearest end of the range. A NaN gives
zero. -/
def cutTo (x : FloatBits p) (lo hi : ℤ) : ℤ :=
  if x.isNaN then 0
  else if x.isInfinite then if x.sign then lo else hi
  else max lo (min hi (x.roundedInt .towardZero))

/-- The conversion to an integer from `lo` to `hi` with comparisons of numbers: the number is
rounded to an integral one, which is compared with the ends of the range and with the number, and
then cut. -/
def toIntByRounding (x : FloatBits p) (mode : RoundingMode) (lo hi : ℤ) : ℤ × FloatFlags :=
  let rounded := x.roundIntegral mode
  if x.isNaN then (hi, .invalid)
  else if (ofInt p hi).lt rounded then (hi, .invalid)
  else if rounded.lt (ofInt p lo) then (lo, .invalid)
  else (rounded.cutTo lo hi, .when (!rounded.eq x) .inexact)

theorem cutTo_of_value (hx : x.isFinite) (hvalue : x.value = i) (hlo : lo ≤ i) (hhi : i ≤ hi) :
    x.cutTo lo hi = i := by
  rw [cutTo, if_neg (ne_true_of_eq_false (isNaN_of_isFinite hx)),
    if_neg (ne_true_of_eq_false (isInfinite_of_isFinite hx)), roundedInt_of_value _ hvalue,
    min_eq_right hhi, max_eq_right hlo]

section

variable (mode : RoundingMode) (hlo : lo.natAbs < 2 * 2 ^ p.fractionBits)
  (hhi : hi.natAbs < 2 * 2 ^ p.fractionBits)

include hlo hhi

/-- The comparisons with a rounded number that is finite are those of integers. -/
theorem toIntByRounding_of_finite (hx : x.isFinite) : x.toIntByRounding mode lo hi =
    if hi < x.roundedInt mode then (hi, .invalid)
    else if x.roundedInt mode < lo then (lo, .invalid)
    else (x.roundedInt mode, .when (!x.isInteger (x.roundedInt mode)) .inexact) := by
  obtain ⟨hlofinite, hlovalue⟩ := ofInt_exact hlo
  obtain ⟨hhifinite, hhivalue⟩ := ofInt_exact hhi
  obtain ⟨hrounded, hvalue⟩ := value_roundIntegral mode hx
  have habove : (ofInt p hi).lt (x.roundIntegral mode) = true ↔ hi < x.roundedInt mode := by
    rw [lt_iff_value hhifinite hrounded, hhivalue, hvalue, Int.cast_lt]
  have hbelow : (x.roundIntegral mode).lt (ofInt p lo) = true ↔ x.roundedInt mode < lo := by
    rw [lt_iff_value hrounded hlofinite, hlovalue, hvalue, Int.cast_lt]
  have hsame : (x.roundIntegral mode).eq x = x.isInteger (x.roundedInt mode) := by
    rw [Bool.eq_iff_iff, eq_iff_value hrounded hx, hvalue, isInteger_eq, decide_eq_true_iff]
  simp only [toIntByRounding, isNaN_of_isFinite hx, Bool.false_eq_true, if_false, habove, hbelow]
  split
  case isTrue => rfl
  case isFalse hle =>
    split
    case isTrue => rfl
    case isFalse hge => rw [cutTo_of_value hrounded hvalue (by omega) (by omega), hsame]

/-- An infinity is beyond the end of the range on its side. -/
theorem toIntByRounding_of_infinite (hx : x.isInfinite) :
    x.toIntByRounding mode lo hi = (if x.sign then lo else hi, .invalid) := by
  have hlofinite := (ofInt_exact hlo).1
  have hhifinite := (ofInt_exact hhi).1
  have hnumber := isNaN_of_isInfinite hx
  simp only [toIntByRounding, hnumber, Bool.false_eq_true, if_false,
    roundIntegral_of_infinite mode hx, lt_iff (isNaN_of_isFinite hhifinite) hnumber,
    lt_iff hnumber (isNaN_of_isFinite hlofinite), extended_of_finite hlofinite,
    extended_of_finite hhifinite, extended_of_infinite hx]
  cases x.sign <;> simp

/-- A conversion to a range whose ends are numbers of the format can be made with numbers of the
format. -/
theorem toIntIn_eq (x : FloatBits p) : x.toIntIn mode lo hi = x.toIntByRounding mode lo hi := by
  cases hx : x.isNaN with
  | true => rw [toIntIn, toIntByRounding, if_pos hx, if_pos hx]
  | false =>
    rw [toIntIn, if_neg (ne_true_of_eq_false hx)]
    rcases isNaN_eq_false_iff.mp hx with hfinite | hinfinite
    · rw [toIntByRounding_of_finite mode hlo hhi hfinite,
        if_neg (ne_true_of_eq_false (isInfinite_of_isFinite hfinite))]
    · rw [toIntByRounding_of_infinite mode hlo hhi hinfinite, if_pos hinfinite]

end

/-! ## Double precision -/

/-- The number in double precision, with the NaN that the host gives for a NaN of single
precision. -/
def widened (nan : NaN .double) : {p : Precision} → FloatBits p → FloatBits .double
  | .single, x => x.convert .double nan
  | .double, x => x

section

variable (nan nan' : NaN .double)

theorem isNaN_widened (x : FloatBits p) : (x.widened nan).isNaN = x.isNaN := by
  cases p with
  | single => exact isNaN_convert .double
  | double => rfl

theorem widened_of_finite (hx : x.isFinite) :
    (x.widened nan).isFinite ∧ (x.widened nan).value = x.value := by
  cases p with
  | single => exact convert_double nan hx
  | double => exact ⟨hx, rfl⟩

theorem widened_of_infinite (hx : x.isInfinite) :
    (x.widened nan).isInfinite ∧ (x.widened nan).sign = x.sign := by
  cases p with
  | single =>
    rw [widened, convert_of_infinite .double hx]
    exact ⟨isInfinite_infinity .double x.sign, sign_infinity .double x.sign⟩
  | double => exact ⟨hx, rfl⟩

/-- Every number has its value in double precision, too. -/
theorem extended_widened (hx : x.isNaN = false) : (x.widened nan).extended = x.extended := by
  rcases isNaN_eq_false_iff.mp hx with hfinite | hinfinite
  · obtain ⟨hwide, hvalue⟩ := widened_of_finite nan hfinite
    rw [extended_of_finite hwide, extended_of_finite hfinite, hvalue]
  · obtain ⟨hwide, hsign⟩ := widened_of_infinite nan hinfinite
    rw [extended_of_infinite hwide, extended_of_infinite hinfinite, hsign]

/-- The conversion to an integer may be that of the widened number. -/
theorem toIntIn_widened (x : FloatBits p) (mode : RoundingMode) :
    (x.widened nan).toIntIn mode lo hi = x.toIntIn mode lo hi := by
  cases hx : x.isNaN with
  | true => rw [toIntIn, toIntIn, isNaN_widened, if_pos hx, if_pos hx]
  | false =>
    rw [toIntIn, toIntIn, isNaN_widened, hx]
    rcases isNaN_eq_false_iff.mp hx with hfinite | hinfinite
    · obtain ⟨hwide, hvalue⟩ := widened_of_finite nan hfinite
      have hrounds := rounds_roundedInt (x.widened nan) mode
      rw [hvalue] at hrounds
      simp only [isInfinite_of_isFinite hwide, isInfinite_of_isFinite hfinite, Bool.false_eq_true,
        if_false, hrounds.unique (rounds_roundedInt x mode), isInteger_eq, hvalue]
    · obtain ⟨hwide, hsign⟩ := widened_of_infinite nan hinfinite
      rw [if_pos hwide, if_pos hinfinite, hsign]

/-- The conversions to words can be made in double precision. -/
theorem toWord_eq_double (x : FloatBits p) (mode : RoundingMode) :
    x.toSigned mode = Prod.map (BitVec.ofInt 32) id
      ((x.widened nan).toIntByRounding mode (-0x80000000) 0x7FFFFFFF) ∧
    x.toUnsigned mode = Prod.map (BitVec.ofInt 32) id
      ((x.widened nan).toIntByRounding mode 0 0xFFFFFFFF) := by
  rw [← toIntIn_eq mode (by decide) (by decide), ← toIntIn_eq mode (by decide) (by decide),
    toIntIn_widened, toIntIn_widened]
  exact ⟨rfl, rfl⟩

/-- Whether a number is an integer can be seen in double precision if the integer is a number
there. -/
theorem isInteger_eq_double (hx : x.isFinite) (hi : i.natAbs < 2 * 2 ^ 52) :
    x.isInteger i = (x.widened nan).eq (ofInt .double i) := by
  obtain ⟨hifinite, hivalue⟩ := ofInt_exact (p := .double) hi
  obtain ⟨hwide, hvalue⟩ := widened_of_finite nan hx
  rw [Bool.eq_iff_iff, eq_iff_value hwide hifinite, hvalue, hivalue, isInteger_eq,
    decide_eq_true_iff, eq_comm]

/-- Numbers of two formats are equal in double precision exactly if their values are the same. -/
theorem eq_widened_iff {y : FloatBits q} (hx : x.isNaN = false) (hy : y.isNaN = false) :
    (y.widened nan).eq (x.widened nan') = true ↔ y.extended = x.extended := by
  rw [eq_iff ((isNaN_widened nan y).trans hy) ((isNaN_widened nan' x).trans hx),
    extended_widened nan hy, extended_widened nan' hx]

/-- A conversion keeps the value of a number unless the number is finite and the outcome is not, or
has another value. -/
theorem extended_convert_eq_iff (host : NaN q) (hx : x.isNaN = false) :
    (x.convert q host).extended = x.extended ↔
      ¬(x.isFinite ∧ ((x.convert q host).isInfinite ∨ (x.convert q host).value ≠ x.value)) := by
  have hy : (x.convert q host).isNaN = false := (isNaN_convert q).trans hx
  rcases isNaN_eq_false_iff.mp hx with hfinite | hinfinite
  · rw [extended_of_finite hfinite, and_iff_right hfinite]
    rcases isNaN_eq_false_iff.mp hy with hyfinite | hyinfinite
    · rw [extended_of_finite hyfinite, WithBot.coe_inj, WithTop.coe_inj,
        isInfinite_of_isFinite hyfinite, or_iff_right Bool.false_ne_true, not_not]
    · rw [extended_of_infinite hyinfinite]
      refine iff_of_false ?_ (not_not_intro (.inl hyinfinite))
      split <;> simp
  · rw [convert_of_infinite q hinfinite, extended_of_infinite (isInfinite_infinity q x.sign),
      sign_infinity, extended_of_infinite hinfinite]
    refine iff_of_true rfl fun h => ?_
    exact absurd (isInfinite_iff.mp hinfinite) (isFinite_iff.mp h.1).ne

/-- A conversion between formats changed a value exactly if the two numbers differ in double
precision. -/
theorem changed_iff (x : FloatBits p) (host : NaN q) :
    let y := x.convert q host
    (!x.isNaN && !(y.widened nan).eq (x.widened nan')) = true ↔
      x.isFinite ∧ (y.isInfinite ∨ y.value ≠ x.value) := by
  intro y
  cases hx : x.isNaN with
  | true =>
    refine iff_of_false Bool.false_ne_true fun h => ?_
    rw [isNaN_of_isFinite h.1] at hx
    cases hx
  | false =>
    rw [Bool.not_false, Bool.true_and, Bool.not_eq_true', ← Bool.not_eq_true,
      eq_widened_iff nan nan' hx ((isNaN_convert q).trans hx), extended_convert_eq_iff host hx,
      not_not]

/-- The flags of a conversion between formats come from a comparison in double precision. -/
theorem convertFlags_eq_double (x : FloatBits p) (host : NaN q) :
    let y := x.convert q host
    let changed := !x.isNaN && !(y.widened nan).eq (x.widened nan')
    x.convertFlags y = .when x.isSignaling .invalid ∪
      (.when changed .inexact ∪ .when (changed && y.isInfinite) .overflow) := by
  intro y changed
  have hchanged : changed = decide (x.isFinite ∧ (y.isInfinite ∨ y.value ≠ x.value)) :=
    Bool.eq_iff_iff.mpr ((changed_iff nan nan' x host).trans decide_eq_true_iff.symm)
  have hoverflow : (changed && y.isInfinite) = decide (x.isFinite ∧ y.isInfinite) := by
    rw [hchanged]
    cases x.isFinite <;> cases y.isInfinite <;> simp
  rw [convertFlags_eq, hoverflow, hchanged]

end

end Riscv32.FloatBits
