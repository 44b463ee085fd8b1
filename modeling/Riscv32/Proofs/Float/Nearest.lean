import Riscv32.Proofs.Float.Integer

/-!
# The nearest number

Rounding a quotient of units cuts it at the place that leaves a significand of the format and takes
the nearest integer there. This is the nearest number of the whole format: the numbers of larger
binades are multiples of the step at that place, and those of smaller binades lie below the power of
two that starts the binade, which is a multiple as well. A magnitude is even exactly if its
significand is, so ties go to the even fraction.

## Main definitions

* `FloatBits.Nearest` — the number nearest to a rational number, as a relation.
* `Precision.overflowBound` — the least number that is rounded to infinity.

## Main statements

* `FloatBits.exists_nearest`, on magnitudes that have no bound.
* `FloatBits.lt_infinity_iff`, where they pass the largest number.
* `FloatBits.nearest_round`, that rounding gives the nearest number.
* `FloatBits.Nearest.unique`, that there is only one.
-/
namespace Riscv32

namespace Precision

/-- The least number that is rounded to infinity. It lies halfway between the largest number of the
format and the power of two that would be the next. -/
def overflowBound (p : Precision) : ℚ := (2 - 1 / 2 ^ (p.fractionBits + 1)) * 2 ^ p.bias

theorem infinity_eq_add (p : Precision) :
    p.infinity = 2 ^ p.fractionBits + 2 * p.bias * 2 ^ p.fractionBits := by
  cases p <;> decide

end Precision

namespace RoundingMode

variable {v : ℚ} {i j : ℤ}

/-- No integer is nearer than the one that a number is rounded to, and if another one is as near,
that one is even. -/
theorem Rounds.nearest (hi : nearestEven.Rounds v i) (j : ℤ) :
    |v - i| ≤ |v - j| ∧ (|v - i| = |v - j| → j = i ∨ Even i) := by
  rcases eq_or_ne j i with rfl | hne
  · exact ⟨le_refl _, fun _ => .inl rfl⟩
  · have hapart : (1 : ℚ) ≤ |(i : ℚ) - j| := by
      exact_mod_cast Int.one_le_abs (sub_ne_zero.mpr hne.symm)
    have htriangle : |(i : ℚ) - j| ≤ |v - i| + |v - j| := by
      rw [abs_sub_comm v i]
      exact abs_sub_le (i : ℚ) v j
    have hhalf := hi.1
    exact ⟨by linarith, fun heq => .inr (hi.2 (by linarith))⟩

theorem Rounds.le_of_le (hi : nearestEven.Rounds v i) (hv : v ≤ j) : i ≤ j :=
  le_of_sub_one_lt (by linarith [(abs_le.mp hi.1).1]) hv

theorem Rounds.ge_of_ge (hi : nearestEven.Rounds v i) (hv : j ≤ v) : j ≤ i :=
  le_of_lt_add_one (by linarith [(abs_le.mp hi.1).2]) hv

end RoundingMode

namespace FloatBits

variable {p : Precision} {a : ℚ} {m k s num den : Nat}

/-! ## Magnitudes -/

/-- Below a binade the grid is finer, from it on the numbers are multiples of its step. -/
theorem unitsOf_dvd_or_lt (p : Precision) (k m : Nat) :
    (∃ t, unitsOf p m = t * 2 ^ k) ∨ 0 < k ∧ unitsOf p m < 2 ^ p.fractionBits * 2 ^ k := by
  obtain ⟨s, e, rfl, hs, he⟩ := exists_significand p m
  rw [unitsOf_add hs.le he]
  rcases Nat.lt_or_ge e k |>.symm with hle | hlt
  · left
    refine ⟨s * 2 ^ (e - k), ?_⟩
    rw [Nat.mul_assoc, ← Nat.pow_add, Nat.sub_add_cancel hle]
  · right
    refine ⟨by omega, ?_⟩
    calc s * 2 ^ e
      _ < 2 * 2 ^ p.fractionBits * 2 ^ e := Nat.mul_lt_mul_of_pos_right hs (by positivity)
      _ = 2 ^ p.fractionBits * 2 ^ (e + 1) := by ring
      _ ≤ 2 ^ p.fractionBits * 2 ^ k := Nat.mul_le_mul_left _ (Nat.pow_le_pow_right two_pos hlt)

/-- How many bits of a quotient lie beyond the significand. -/
def excessBits (p : Precision) (num den : Nat) : Nat := Nat.log2 (num / den) - p.fractionBits

theorem lt_excessBits (p : Precision) (num : Nat) (hden : 0 < den) :
    num < 2 * 2 ^ p.fractionBits * 2 ^ excessBits p num den * den := by
  have hlog : num / den < 2 ^ (Nat.log2 (num / den) + 1) := Nat.lt_log2_self
  have hle : 2 ^ (Nat.log2 (num / den) + 1) ≤
      2 * 2 ^ p.fractionBits * 2 ^ excessBits p num den := by
    rw [← Nat.pow_succ', ← Nat.pow_add]
    apply Nat.pow_le_pow_right two_pos
    rw [excessBits]
    omega
  exact (Nat.div_lt_iff_lt_mul hden).mp (hlog.trans_le hle)

theorem excessBits_le (p : Precision) (num den : Nat) (hpos : excessBits p num den ≠ 0) :
    2 ^ p.fractionBits * 2 ^ excessBits p num den * den ≤ num := by
  have hne : num / den ≠ 0 := by
    rintro hzero
    rw [excessBits, hzero] at hpos
    exact hpos (Nat.zero_sub _)
  have hexponent : p.fractionBits + excessBits p num den = Nat.log2 (num / den) := by
    rw [excessBits] at hpos ⊢
    omega
  rw [← Nat.pow_add, hexponent]
  exact (Nat.mul_le_mul_right den (Nat.log2_self_le hne)).trans (Nat.div_mul_le_self num den)

/-- A quotient is rounded at the place that leaves a significand of the format. -/
theorem exists_rounded (p : Precision) (num : Nat) (hden : 0 < den) : ∃ s k : Nat,
    roundMagnitude p num den = min p.infinity (s + k * 2 ^ p.fractionBits) ∧
    RoundingMode.nearestEven.Rounds (num / den / 2 ^ k) s ∧
    (num / den : ℚ) < 2 * 2 ^ p.fractionBits * 2 ^ k ∧
    (k = 0 ∨ (2 ^ p.fractionBits * 2 ^ k : ℚ) ≤ num / den) := by
  have hcast : (0 : ℚ) < den := by exact_mod_cast hden
  have hstep : 0 < den * 2 ^ excessBits p num den := by positivity
  refine ⟨RoundingMode.nearestEven.roundInteger false num (den * 2 ^ excessBits p num den),
    excessBits p num den, ?_, ?_, ?_, ?_⟩
  · simp only [roundMagnitude, Nat.one_shiftLeft, excessBits]
  · have hrounds := RoundingMode.rounds_roundInteger_false .nearestEven num hstep
    rw [div_div]
    exact_mod_cast hrounds
  · rw [div_lt_iff₀ hcast]
    exact_mod_cast lt_excessBits p num hden
  · rw [le_div_iff₀ hcast]
    apply Decidable.or_iff_not_imp_left.mpr
    intro hpos
    exact_mod_cast excessBits_le p num den hpos

/-- A magnitude is even if its significand is. -/
theorem even_add_mul (p : Precision) (hs : Even s) : Even (s + k * 2 ^ p.fractionBits) := by
  have heven : Even (2 ^ p.fractionBits) := (Nat.even_pow' p.fractionBits_pos.ne').mpr even_two
  exact hs.add (heven.mul_left k)

/-- A magnitude that no other one is nearer than, and that is even if another one is as near. -/
def NearestMagnitude (p : Precision) (a : ℚ) (m : Nat) : Prop :=
  ∀ n, |a - unitsOf p m| ≤ |a - unitsOf p n| ∧
    (|a - unitsOf p m| = |a - unitsOf p n| → n = m ∨ Even m)

/-- Distances to multiples of a power of two are those to integers, scaled. -/
theorem abs_sub_multiple (a : ℚ) (t k : Nat) :
    |a - (t * 2 ^ k : ℕ)| = |a / 2 ^ k - (t : ℤ)| * 2 ^ k := by
  have hstep : (0 : ℚ) < 2 ^ k := by positivity
  rw [← abs_of_pos hstep, ← abs_mul, abs_of_pos hstep, sub_mul, div_mul_cancel₀ _ hstep.ne']
  push_cast
  rfl

/-- The integer that a significand is rounded to is a significand again, or the next power of
two. -/
theorem unitsOf_rounded (hs : RoundingMode.nearestEven.Rounds (a / 2 ^ k) s)
    (hlt : a < 2 * 2 ^ p.fractionBits * 2 ^ k) (hk : k = 0 ∨ 2 ^ p.fractionBits * 2 ^ k ≤ a) :
    unitsOf p (s + k * 2 ^ p.fractionBits) = s * 2 ^ k := by
  have hstep : (0 : ℚ) < 2 ^ k := by positivity
  have hhigh : (s : ℤ) ≤ (2 * 2 ^ p.fractionBits : ℕ) := by
    apply hs.le_of_le
    rw [div_le_iff₀ hstep]
    exact_mod_cast hlt.le
  refine unitsOf_add (by exact_mod_cast hhigh) (hk.symm.imp_left fun hge => ?_)
  have hlow : ((2 ^ p.fractionBits : ℕ) : ℤ) ≤ s := by
    apply hs.ge_of_ge
    rw [le_div_iff₀ hstep]
    exact_mod_cast hge
  exact_mod_cast hlow

theorem nearestMagnitude_of_rounds (hs : RoundingMode.nearestEven.Rounds (a / 2 ^ k) s)
    (hlt : a < 2 * 2 ^ p.fractionBits * 2 ^ k) (hk : k = 0 ∨ 2 ^ p.fractionBits * 2 ^ k ≤ a) :
    NearestMagnitude p a (s + k * 2 ^ p.fractionBits) := by
  intro n
  have hstep : (0 : ℚ) < 2 ^ k := by positivity
  have hunits := unitsOf_rounded hs hlt hk
  have hmultiple (t : Nat) : |a - (s * 2 ^ k : ℕ)| ≤ |a - (t * 2 ^ k : ℕ)| := by
    rw [abs_sub_multiple, abs_sub_multiple]
    exact mul_le_mul_of_nonneg_right (hs.nearest t).1 hstep.le
  rcases unitsOf_dvd_or_lt p k n with ⟨t, ht⟩ | ⟨hpos, hsmall⟩
  · -- A multiple of the step is as far away as an integer is from the scaled number.
    rw [hunits, ht]
    refine ⟨hmultiple t, fun heq => ?_⟩
    rw [abs_sub_multiple, abs_sub_multiple] at heq
    rcases (hs.nearest t).2 (mul_right_cancel₀ hstep.ne' heq) with hts | heven
    · obtain rfl : t = s := by exact_mod_cast hts
      exact .inl ((strictMono_unitsOf p).injective (ht.trans hunits.symm))
    · exact .inr (even_add_mul p (by exact_mod_cast heven))
  · -- A number of a smaller binade is farther away than the power of two that starts this one.
    have hge : (2 ^ p.fractionBits * 2 ^ k : ℚ) ≤ a := hk.resolve_left hpos.ne'
    have hbelow : (unitsOf p n : ℚ) < 2 ^ p.fractionBits * 2 ^ k := by exact_mod_cast hsmall
    have hpower : |a - (2 ^ p.fractionBits * 2 ^ k : ℕ)| < |a - unitsOf p n| := by
      push_cast
      rw [abs_of_nonneg (by linarith), abs_of_nonneg (by linarith)]
      linarith
    have hnearer := (hmultiple _).trans_lt hpower
    rw [hunits]
    exact ⟨hnearer.le, fun heq => absurd heq hnearer.ne⟩

/-- Rounding a quotient gives the nearest magnitude as if there were no largest one, and infinity if
this would be larger. -/
theorem exists_nearest (p : Precision) (num : Nat) (hden : 0 < den) : ∃ m,
    roundMagnitude p num den = min p.infinity m ∧ NearestMagnitude p (num / den) m := by
  obtain ⟨s, k, hround, hs, hlt, hk⟩ := exists_rounded p num hden
  exact ⟨s + k * 2 ^ p.fractionBits, hround, nearestMagnitude_of_rounds hs hlt hk⟩

/-! ## Overflow -/

theorem unitsOf_infinity (p : Precision) :
    unitsOf p p.infinity = 2 ^ p.fractionBits * 2 ^ (2 * p.bias) := by
  rw [p.infinity_eq_add, unitsOf_add (by omega) (.inl le_rfl)]

/-- The units of the largest number. -/
theorem unitsOf_infinity_sub_one (p : Precision) :
    unitsOf p (p.infinity - 1) = (2 * 2 ^ p.fractionBits - 1) * 2 ^ (2 * p.bias - 1) := by
  have hpos : 0 < 2 ^ p.fractionBits := by positivity
  have hbias : 2 * p.bias = 2 * p.bias - 1 + 1 := by cases p <;> rfl
  have hlargest : p.infinity - 1 =
      2 * 2 ^ p.fractionBits - 1 + (2 * p.bias - 1) * 2 ^ p.fractionBits := by
    rw [p.infinity_eq_add]
    generalize 2 * p.bias - 1 = b at hbias ⊢
    rw [hbias, Nat.succ_mul]
    omega
  rw [hlargest, unitsOf_add (by omega) (.inl (by omega))]

/-- The bound of overflow lies halfway between the largest number and the next power of two. -/
theorem overflowBound_eq (p : Precision) : p.overflowBound * 2 ^ p.unitExponent =
    (unitsOf p (p.infinity - 1) + unitsOf p p.infinity) / 2 := by
  have hpos : 0 < 2 ^ p.fractionBits := by positivity
  have hexponent : p.bias + p.unitExponent = p.fractionBits + (2 * p.bias - 1) := by
    cases p <;> rfl
  have hbias : 2 * p.bias = 2 * p.bias - 1 + 1 := by cases p <;> rfl
  rw [unitsOf_infinity, unitsOf_infinity_sub_one, Precision.overflowBound, mul_assoc, ← pow_add,
    hexponent]
  generalize 2 * p.bias - 1 = b at hbias ⊢
  rw [hbias, pow_add, pow_succ]
  push_cast [Nat.cast_sub (show 1 ≤ 2 * 2 ^ p.fractionBits by omega)]
  field_simp
  ring

/-- The nearest magnitude is finite below the bound of overflow. The bound itself is as near to the
largest number as to the next power of two, of which the latter is even. -/
theorem lt_infinity_iff (hm : NearestMagnitude p a m) :
    m < p.infinity ↔ a < p.overflowBound * 2 ^ p.unitExponent := by
  have hpos := p.infinity_pos
  have hmono := (strictMono_unitsOf p).monotone
  have hlargest : (unitsOf p (p.infinity - 1) : ℚ) < unitsOf p p.infinity := by
    exact_mod_cast strictMono_unitsOf p (by omega)
  rw [overflowBound_eq]
  constructor
  · intro hlt
    by_contra! hge
    have hle : (unitsOf p m : ℚ) ≤ unitsOf p (p.infinity - 1) := by
      exact_mod_cast hmono (by omega)
    obtain ⟨hnear, htie⟩ := hm p.infinity
    rw [abs_of_nonneg (by linarith)] at hnear htie
    have hfar : |a - unitsOf p p.infinity| ≤ a - unitsOf p (p.infinity - 1) :=
      abs_le.mpr ⟨by linarith, by linarith⟩
    have hsame : unitsOf p m = unitsOf p (p.infinity - 1) := by
      have hcast : (unitsOf p m : ℚ) = unitsOf p (p.infinity - 1) := by linarith
      exact_mod_cast hcast
    obtain rfl := (strictMono_unitsOf p).injective hsame
    rcases htie (by linarith) with heq | heven
    · omega
    · have hodd : ¬Even (p.infinity - 1) := by cases p <;> decide
      exact hodd heven
  · intro hlt
    by_contra! hge
    have hle : (unitsOf p p.infinity : ℚ) ≤ unitsOf p m := by exact_mod_cast hmono hge
    have hnear := (hm (p.infinity - 1)).1
    rw [abs_of_nonpos (by linarith)] at hnear
    have hfar : |a - unitsOf p (p.infinity - 1)| < unitsOf p m - a :=
      abs_lt.mpr ⟨by linarith, by linarith⟩
    linarith

/-! ## Numbers -/

/-- The number of a format that is nearest to a rational number. Of two that are as near, it is the
one with the even fraction, and beyond the bound of overflow it is infinity. It has the sign of the
rational number, unless this is zero. -/
structure Nearest (v : ℚ) (y : FloatBits p) : Prop where
  finite : |v| < p.overflowBound → y.isFinite
  overflow : p.overflowBound ≤ |v| → y.isInfinite
  nearest : y.isFinite → ∀ z : FloatBits p, z.isFinite → |v - y.value| ≤ |v - z.value|
  even : y.isFinite → ∀ z : FloatBits p, z.isFinite → |v - y.value| = |v - z.value| →
    z.value = y.value ∨ Even y.fractionField
  negative : v < 0 → y.sign = true
  positive : 0 < v → y.sign = false

theorem even_fractionField {y : FloatBits p} (h : Even y.magnitude) : Even y.fractionField := by
  rw [fractionField_eq, Nat.even_iff, Nat.mod_mod_of_dvd _ (dvd_pow_self 2 p.fractionBits_pos.ne')]
  exact Nat.even_iff.mp h

/-- The distance of a number to another one is that of the absolute values if the signs agree, and
their sum otherwise. -/
theorem abs_sub_value (negative : Bool) (a : ℚ) (z : FloatBits p) :
    |(if negative then -a else a) / 2 ^ p.unitExponent - z.value| =
      |if z.sign = negative then a - z.units else a + z.units| / 2 ^ p.unitExponent := by
  have hunit : (0 : ℚ) < 2 ^ p.unitExponent := by positivity
  have hdistance (b : ℚ) : |b / 2 ^ p.unitExponent| = |b| / 2 ^ p.unitExponent := by
    rw [abs_div, abs_of_pos hunit]
  rw [← hdistance, value, absValue_eq]
  cases negative <;> cases z.sign
  · simp [sub_div]
  · simp [add_div]
  · rw [← abs_neg]
    simp [add_div, neg_div, add_comm]
  · rw [← abs_neg]
    simp [sub_div, neg_div]
    ring_nf

@[simp] theorem unitsOf_zero (p : Precision) : unitsOf p 0 = 0 := by cases p <;> rfl

theorem abs_value (x : FloatBits p) : |x.value| = x.units / 2 ^ p.unitExponent := by
  have hnonneg : (0 : ℚ) ≤ x.units / 2 ^ p.unitExponent := by positivity
  rw [value, absValue_eq]
  split
  · rw [abs_neg, abs_of_nonneg hnonneg]
  · rw [abs_of_nonneg hnonneg]

theorem units_eq_zero_iff {x : FloatBits p} : x.units = 0 ↔ x.magnitude = 0 := by
  have h := (strictMono_unitsOf p).injective.eq_iff (a := x.magnitude) (b := 0)
  rwa [unitsOf_zero] at h

theorem value_eq_zero_iff {x : FloatBits p} : x.value = 0 ↔ x.magnitude = 0 := by
  have hunit : (2 : ℚ) ^ p.unitExponent ≠ 0 := by positivity
  rw [← abs_eq_zero, abs_value, div_eq_zero_iff, or_iff_left hunit, Nat.cast_eq_zero,
    units_eq_zero_iff]

/-- A pattern is the nearest number if its magnitude is the nearest one, cut off at infinity. -/
theorem nearest_of_magnitude {y : FloatBits p} (ha : 0 ≤ a) (hm : NearestMagnitude p a m)
    (hy : y.magnitude = min p.infinity m) :
    Nearest ((if y.sign then -a else a) / 2 ^ p.unitExponent) y := by
  have hunit : (0 : ℚ) < 2 ^ p.unitExponent := by positivity
  have hbound : |(if y.sign then -a else a) / 2 ^ p.unitExponent| < p.overflowBound ↔
      m < p.infinity := by
    have habs : |if y.sign then -a else a| = a := by
      cases y.sign <;> simp [abs_of_nonneg ha]
    rw [lt_infinity_iff hm, abs_div, habs, abs_of_pos hunit, div_lt_iff₀ hunit]
  have hfinite : y.isFinite → y.magnitude = m := by
    intro h
    have hmin := isFinite_iff.mp h
    rw [hy] at hmin ⊢
    exact min_eq_right (by omega)
  -- A number of the other sign is no nearer than zero.
  have hzero : |a - unitsOf p 0| = a := by simp [abs_of_nonneg ha]
  have hother (z : FloatBits p) : |a + z.units| = a + z.units := abs_of_nonneg (by positivity)
  have hunits (z : FloatBits p) : (0 : ℚ) ≤ z.units := Nat.cast_nonneg _
  constructor
  case finite =>
    intro hv
    rw [isFinite_iff, hy]
    exact min_lt_of_right_lt (hbound.mp hv)
  case overflow =>
    intro hv
    have hle : p.infinity ≤ m := not_lt.mp fun h => not_lt.mpr hv (hbound.mpr h)
    rw [isInfinite_iff, hy, min_eq_left hle]
  case nearest =>
    intro h z hz
    rw [abs_sub_value, abs_sub_value, if_pos rfl, units, hfinite h]
    apply div_le_div_of_nonneg_right _ hunit.le
    split
    · exact (hm z.magnitude).1
    · rw [hother]
      linarith [(hm 0).1, hunits z]
  case even =>
    intro h z hz heq
    rw [abs_sub_value, abs_sub_value, if_pos rfl, units, hfinite h, div_left_inj' hunit.ne'] at heq
    split at heq
    case isTrue hsign =>
      refine ((hm z.magnitude).2 heq).imp (fun hzm => ?_) fun heven => even_fractionField ?_
      · rw [ext_sign_magnitude hsign (hzm.trans (hfinite h).symm)]
      · rwa [hfinite h]
    case isFalse =>
      rw [hother] at heq
      have hz : (z.units : ℚ) = 0 := by linarith [(hm 0).1, hunits z]
      have hsame : |a - unitsOf p m| = |a - unitsOf p 0| := by rw [heq, hz, hzero, add_zero]
      refine ((hm 0).2 hsame).imp (fun hzm => ?_) fun heven => even_fractionField ?_
      · rw [value_eq_zero_iff.mpr (units_eq_zero_iff.mp (by exact_mod_cast hz)),
          value_eq_zero_iff.mpr ((hfinite h).trans hzm.symm)]
      · rwa [hfinite h]
  case negative =>
    intro hv
    cases hsign : y.sign with
    | true => rfl
    | false =>
      rw [hsign] at hv
      exact absurd hv (not_lt.mpr (by simpa using div_nonneg ha hunit.le))
  case positive =>
    intro hv
    cases hsign : y.sign with
    | true =>
      rw [hsign] at hv
      exact absurd hv (not_lt.mpr (by simpa [neg_div] using div_nonneg ha hunit.le))
    | false => rfl

theorem sign_round (p : Precision) (negative : Bool) (num den : Nat) :
    (round p negative num den).sign = negative :=
  sign_ofMagnitude negative ((min_le_left _ _).trans_lt p.infinity_lt)

/-- Rounding gives the nearest number. -/
theorem nearest_round (p : Precision) (negative : Bool) (num : Nat) (hden : 0 < den) :
    Nearest ((if negative then -(num / den : ℚ) else num / den) / 2 ^ p.unitExponent)
      (round p negative num den) := by
  obtain ⟨m, hround, hm⟩ := exists_nearest p num hden
  have hlt : min p.infinity m < 2 ^ p.magnitudeBits := (min_le_left _ _).trans_lt p.infinity_lt
  have hmagnitude : (round p negative num den).magnitude = min p.infinity m := by
    rw [round, hround, magnitude_ofMagnitude negative hlt]
  have hnonneg : (0 : ℚ) ≤ num / den := by positivity
  have h := nearest_of_magnitude hnonneg hm hmagnitude
  rwa [sign_round] at h

/-! ## Exact results -/

/-- A finite pattern is told by its value and its sign. -/
theorem eq_of_value {x y : FloatBits p} (hvalue : x.value = y.value) (hsign : x.sign = y.sign) :
    x = y := by
  have hunit : (2 : ℚ) ^ p.unitExponent ≠ 0 := by positivity
  have hsigned : x.signedUnits = y.signedUnits := by
    rw [value_eq, value_eq, div_left_inj' hunit] at hvalue
    exact_mod_cast hvalue
  have hunits : x.units = y.units := by
    rw [signedUnits, signedUnits, hsign] at hsigned
    split at hsigned <;> omega
  exact ext_sign_magnitude hsign ((strictMono_unitsOf p).injective hunits)

theorem magnitude_zero (p : Precision) : (0 : FloatBits p).magnitude = 0 := by
  rw [magnitude_eq]
  simp

theorem isFinite_zero (p : Precision) : (0 : FloatBits p).isFinite := by
  rw [isFinite_iff, magnitude_zero]
  exact p.infinity_pos

theorem value_zero (p : Precision) : (0 : FloatBits p).value = 0 := by
  rw [value_eq_zero_iff, magnitude_zero]

theorem abs_value_lt {x : FloatBits p} (hx : x.isFinite) : |x.value| < p.overflowBound := by
  have hpos := p.infinity_pos
  have hmagnitude := isFinite_iff.mp hx
  have hle : (x.units : ℚ) ≤ unitsOf p (p.infinity - 1) := by
    exact_mod_cast (strictMono_unitsOf p).monotone (by omega)
  have hlt : (unitsOf p (p.infinity - 1) : ℚ) < unitsOf p p.infinity := by
    exact_mod_cast strictMono_unitsOf p (by omega)
  rw [abs_value, div_lt_iff₀ (by positivity), overflowBound_eq]
  linarith

/-- A number that the format has is nearest to itself only. -/
theorem Nearest.value_eq {x y : FloatBits p} (hx : x.isFinite) (h : Nearest x.value y) :
    y.isFinite ∧ y.value = x.value := by
  have hy := h.finite (abs_value_lt hx)
  have hle := h.nearest hy x hx
  rw [sub_self, abs_zero] at hle
  exact ⟨hy, (sub_eq_zero.mp (abs_nonpos_iff.mp hle)).symm⟩

/-- Two magnitudes that are both nearest are neighbours. -/
theorem eq_succ_of_nearest {n : Nat} (hlt : m < n) (heq : |a - unitsOf p m| = |a - unitsOf p n|)
    (hnear : |a - unitsOf p m| ≤ |a - unitsOf p (m + 1)|) : n = m + 1 := by
  by_contra hne
  have hlow : (unitsOf p m : ℚ) < unitsOf p (m + 1) := by
    exact_mod_cast strictMono_unitsOf p (by omega)
  have hhigh : (unitsOf p (m + 1) : ℚ) < unitsOf p n := by
    exact_mod_cast strictMono_unitsOf p (by omega)
  have hmiddle : a - unitsOf p m = unitsOf p n - a := by
    rcases abs_eq_abs.mp heq with h | h <;> linarith
  have hnearer : |a - unitsOf p (m + 1)| < a - unitsOf p m :=
    abs_lt.mpr ⟨by linarith, by linarith⟩
  exact absurd (hnear.trans_lt hnearer) (not_lt.mpr (le_abs_self _))

theorem even_magnitude {y : FloatBits p} (h : Even y.fractionField) : Even y.magnitude := by
  rw [← Nat.mod_add_div' y.magnitude (2 ^ p.fractionBits), ← fractionField_eq]
  exact even_add_mul p h

/-- Between two numbers of even magnitude there is another one, which is nearer than both. -/
theorem Nearest.not_magnitude_lt {v : ℚ} {y z : FloatBits p} (hy : Nearest v y) (hz : z.isFinite)
    (hsign : z.sign = y.sign) (hv : v = if y.sign then -|v| else |v|)
    (heq : |v - y.value| = |v - z.value|) (hyeven : Even y.magnitude) (hzeven : Even z.magnitude) :
    ¬y.magnitude < z.magnitude := by
  intro hlt
  have hunit : (0 : ℚ) < 2 ^ p.unitExponent := by positivity
  have hdistance {w : FloatBits p} (hw : w.sign = y.sign) :
      |v - w.value| = |(|v| * 2 ^ p.unitExponent - w.units)| / 2 ^ p.unitExponent := by
    have hscaled : v = (if y.sign then -(|v| * 2 ^ p.unitExponent) else |v| * 2 ^ p.unitExponent) /
        2 ^ p.unitExponent := by
      rw [eq_div_iff hunit.ne']
      nth_rewrite 1 [hv]
      split <;> ring
    rw [hscaled, abs_sub_value, if_pos hw, ← hscaled]
  have hzlt := isFinite_iff.mp hz
  have hnext : y.magnitude + 1 < 2 ^ p.magnitudeBits := by
    have := p.infinity_lt
    omega
  have hbetween : (ofMagnitude p y.sign (y.magnitude + 1)).isFinite := by
    rw [isFinite_iff, magnitude_ofMagnitude _ hnext]
    omega
  have hnear := hy.nearest (isFinite_iff.mpr (hlt.trans hzlt)) _ hbetween
  rw [hdistance rfl, hdistance (sign_ofMagnitude _ hnext), div_le_div_iff_of_pos_right hunit, units,
    units, magnitude_ofMagnitude _ hnext] at hnear
  rw [hdistance rfl, hdistance hsign, div_left_inj' hunit.ne', units, units] at heq
  rw [eq_succ_of_nearest hlt heq hnear] at hzeven
  exact Nat.even_add_one.mp hzeven hyeven

/-- Only one number is the nearest. -/
theorem Nearest.unique {v : ℚ} {y z : FloatBits p} (hy : Nearest v y) (hz : Nearest v z)
    (hv : |v| < p.overflowBound) : y.value = z.value := by
  have hyfinite := hy.finite hv
  have hzfinite := hz.finite hv
  have heq : |v - y.value| = |v - z.value| :=
    (hy.nearest hyfinite z hzfinite).antisymm (hz.nearest hzfinite y hyfinite)
  by_contra hne
  have hyeven := even_magnitude ((hy.even hyfinite z hzfinite heq).resolve_left (Ne.symm hne))
  have hzeven := even_magnitude ((hz.even hzfinite y hyfinite heq.symm).resolve_left hne)
  -- Zero is nearest to itself only, and any other number has the sign of the two.
  have hsign : z.sign = y.sign ∧ v = if y.sign then -|v| else |v| := by
    rcases lt_trichotomy v 0 with hneg | rfl | hpos
    · simp [hy.negative hneg, hz.negative hneg, abs_of_neg hneg]
    · rw [← value_zero p] at hy hz
      exact absurd ((hy.value_eq (isFinite_zero p)).2.trans (hz.value_eq (isFinite_zero p)).2.symm)
        hne
    · simp [hy.positive hpos, hz.positive hpos, abs_of_pos hpos]
  have hle := not_lt.mp (hy.not_magnitude_lt hzfinite hsign.1 hsign.2 heq hyeven hzeven)
  have hge := not_lt.mp
    (hz.not_magnitude_lt hyfinite hsign.1.symm (hsign.1 ▸ hsign.2) heq.symm hzeven hyeven)
  exact hne (congrArg value (ext_sign_magnitude hsign.1.symm (hge.antisymm hle)))

/-- A significand times a power of two is the absolute value of a finite number. -/
theorem exists_units_eq (negative : Bool) (hs : s < 2 * 2 ^ p.fractionBits)
    (hsmall : s * 2 ^ k < 2 ^ p.fractionBits * 2 ^ (2 * p.bias)) :
    ∃ x : FloatBits p, x.isFinite ∧ x.sign = negative ∧ x.units = s * 2 ^ k := by
  obtain ⟨m, hm⟩ := exists_unitsOf p k hs
  rw [← unitsOf_infinity, ← hm, (strictMono_unitsOf p).lt_iff_lt] at hsmall
  have hlt := hsmall.trans p.infinity_lt
  refine ⟨ofMagnitude p negative m, ?_, sign_ofMagnitude negative hlt, ?_⟩
  · rwa [isFinite_iff, magnitude_ofMagnitude negative hlt]
  · rw [units, magnitude_ofMagnitude negative hlt, hm]

end FloatBits
end Riscv32
