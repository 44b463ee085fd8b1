import Riscv32.Proofs.Float.Nearest

/-!
# Conversions to numbers

An integer is converted to the nearest number, which is the integer itself if it has no more bits
than a significand. A number of one format is converted to the nearest one of the other, with flags
that tell what became of its value. From single to double precision nothing is lost, so that the way
back gives the number one started from, bit by bit.

## Main definitions

* `FloatBits.ConvertedInteger` and `FloatBits.Converted` — the result and the flags of a conversion.

## Main statements

* `FloatBits.convertedInteger_ofInt` and `FloatBits.ofInt_exact`, for integers.
* `FloatBits.converted_convert`, for numbers of the other format.
* `FloatBits.convert_double` and `FloatBits.convert_convert`, there and back.
-/
namespace Riscv32.FloatBits

variable {p q : Precision} {x : FloatBits p} {y : FloatBits q} {i : ℤ}

/-! ## From integers -/

theorem value_eq_of_units {n : ℚ} (hunits : (x.units : ℚ) = n * 2 ^ p.unitExponent) :
    x.value = if x.sign then -n else n := by
  rw [value, absValue_eq, hunits, mul_div_cancel_right₀ _ (by positivity)]

/-- An integer is converted to the nearest number. -/
theorem nearest_ofInt (p : Precision) (i : ℤ) : Nearest (i : ℚ) (ofInt p i) := by
  have h := nearest_round p (decide (i < 0)) (i.natAbs * one p) Nat.one_pos
  rw [Nat.cast_one, div_one, Nat.cast_mul, ← neg_mul, ← ite_mul, RoundingMode.signed_natAbs,
    cast_one, mul_div_cancel_right₀ _ (by positivity)] at h
  exact h

theorem sign_ofInt (p : Precision) (i : ℤ) : (ofInt p i).sign = decide (i < 0) := sign_round ..

/-- A number of the format that is an integer is what the integer is converted to. -/
theorem ofInt_exact (hi : i.natAbs < 2 * 2 ^ p.fractionBits) :
    (ofInt p i).isFinite ∧ (ofInt p i).value = i := by
  have hsmall : i.natAbs * 2 ^ p.unitExponent < 2 ^ p.fractionBits * 2 ^ (2 * p.bias) :=
    calc i.natAbs * 2 ^ p.unitExponent
      _ < 2 * 2 ^ p.fractionBits * 2 ^ p.unitExponent :=
        Nat.mul_lt_mul_of_pos_right hi (by positivity)
      _ = 2 ^ p.fractionBits * 2 ^ (p.unitExponent + 1) := by ring
      _ ≤ 2 ^ p.fractionBits * 2 ^ (2 * p.bias) :=
        Nat.mul_le_mul_left _ (Nat.pow_le_pow_right two_pos (by cases p <;> decide))
  obtain ⟨x, hx, hsign, hunits⟩ := exists_units_eq (decide (i < 0)) hi hsmall
  have hvalue : x.value = i := by
    have hcast : (x.units : ℚ) = i.natAbs * 2 ^ p.unitExponent := by exact_mod_cast hunits
    rw [value_eq_of_units hcast, hsign, RoundingMode.signed_natAbs]
  have h := nearest_ofInt p i
  rw [← hvalue] at h ⊢
  exact h.value_eq hx

/-- Integers up to the power of two of the bias are in the range of the format. -/
theorem isFinite_ofInt (hi : i.natAbs < 2 ^ p.bias) : (ofInt p i).isFinite := by
  apply (nearest_ofInt p i).finite
  have hcast : |(i : ℚ)| < 2 ^ p.bias := by
    rw [← Int.cast_abs, Int.abs_eq_natAbs]
    exact_mod_cast hi
  have hfraction : (1 : ℚ) / 2 ^ (p.fractionBits + 1) ≤ 1 :=
    div_le_one_of_le₀ (one_le_pow₀ one_le_two) (by positivity)
  calc |(i : ℚ)|
    _ < 1 * 2 ^ p.bias := by rwa [one_mul]
    _ ≤ p.overflowBound := mul_le_mul_of_nonneg_right (by linarith) (by positivity)

/-- What the conversion of an integer to a number gives. -/
structure ConvertedInteger (i : ℤ) (y : FloatBits p) (flags : FloatFlags) : Prop where
  finite : y.isFinite
  nearest : Nearest i y
  /-- Zero is converted to the positive zero. -/
  sign : y.sign = decide (i < 0)
  /-- The only flag is the one of a number that differs from the integer. -/
  inexact : flags = .when (decide ((i : ℚ) ≠ y.value)) .inexact

theorem convertedInteger_ofInt (hi : i.natAbs < 2 ^ p.bias) :
    ConvertedInteger i (ofInt p i) (.when (!(ofInt p i).isInteger i) .inexact) where
  finite := isFinite_ofInt hi
  nearest := nearest_ofInt p i
  sign := sign_ofInt p i
  inexact := by rw [isInteger_eq, ← decide_not]

/-! ## Between formats -/

/-- What the conversion of a number to another format gives. -/
structure Converted (x : FloatBits p) (y : FloatBits q) (flags : FloatFlags) : Prop where
  /-- A finite number gives the nearest one, or the infinity of its sign. -/
  nearest : x.isFinite → Nearest x.value y
  /-- The sign is kept, also of zeros and infinities. -/
  sign : x.isNaN = false → y.sign = x.sign
  zero : x.isZero → y.isZero
  infinite : x.isInfinite → y.isInfinite
  nan : x.isNaN → y = canonicalNaN q
  /-- The flags tell a finite number that changed, and one that became infinite. -/
  inexact : flags.contains .inexact ↔ x.isFinite ∧ (y.isInfinite ∨ y.value ≠ x.value)
  overflow : flags.contains .overflow ↔ x.isFinite ∧ y.isInfinite
  invalid : flags.contains .invalid ↔ x.isSignaling
  underflow : flags.contains .underflow = false
  divideByZero : flags.contains .divideByZero = false

section

variable (q) {nan nan' : NaN q}

theorem convert_of_isNaN (hx : x.isNaN) : x.convert q nan = nan := by rw [convert, if_pos hx]

theorem convert_of_finite (hx : x.isFinite) :
    x.convert q nan = round q x.sign (x.units * one q) (one p) := by
  rw [convert, if_neg (ne_true_of_eq_false (isNaN_of_isFinite hx)),
    if_neg (ne_true_of_eq_false (isInfinite_of_isFinite hx))]

theorem convert_of_infinite (hx : x.isInfinite) : x.convert q nan = infinity q x.sign := by
  rw [convert, if_neg (ne_true_of_eq_false (isNaN_of_isInfinite hx)), if_pos hx]

/-- What a number is converted to does not depend on the NaN for the others. -/
theorem convert_congr (hx : x.isNaN = false) : x.convert q nan = x.convert q nan' := by
  rw [convert, convert, hx, if_neg Bool.false_ne_true, if_neg Bool.false_ne_true]

theorem nearest_convert (nan : NaN q) (hx : x.isFinite) : Nearest x.value (x.convert q nan) := by
  have hvalue : (if x.sign then -((x.units * one q : ℕ) / one p : ℚ)
      else (x.units * one q : ℕ) / one p) / 2 ^ q.unitExponent = x.value := by
    rw [value, absValue_eq, Nat.cast_mul, cast_one, cast_one]
    split <;> field_simp
  rw [convert_of_finite q hx, ← hvalue]
  exact nearest_round q x.sign (x.units * one q) (one_pos p)

theorem isInfinite_infinity (b : Bool) : (infinity q b).isInfinite :=
  isInfinite_iff.mpr (magnitude_ofMagnitude b q.infinity_lt)

theorem sign_infinity (b : Bool) : (infinity q b).sign = b := sign_ofMagnitude b q.infinity_lt

theorem isNaN_infinity (b : Bool) : (infinity q b).isNaN = false :=
  isNaN_of_isInfinite (isInfinite_infinity q b)

/-- Rounding gives a number. -/
theorem isNaN_round (negative : Bool) (num den : Nat) :
    (round q negative num den).isNaN = false := by
  have hle : roundMagnitude q num den ≤ q.infinity := min_le_left _ _
  rw [← Bool.not_eq_true, isNaN_iff, round, magnitude_ofMagnitude _ (hle.trans_lt q.infinity_lt)]
  exact hle.not_gt

theorem sign_convert (hx : x.isNaN = false) : (x.convert q nan).sign = x.sign := by
  rcases isNaN_eq_false_iff.mp hx with hfinite | hinfinite
  · rw [convert_of_finite q hfinite, sign_round]
  · rw [convert_of_infinite q hinfinite, sign_infinity]

/-- A conversion gives a NaN for a NaN only. -/
theorem isNaN_convert : (x.convert q nan).isNaN = x.isNaN := by
  cases hx : x.isNaN with
  | true =>
    rw [convert_of_isNaN q hx]
    exact nan.2
  | false =>
    rcases isNaN_eq_false_iff.mp hx with hfinite | hinfinite
    · rw [convert_of_finite q hfinite, isNaN_round]
    · rw [convert_of_infinite q hinfinite, isNaN_infinity]

theorem convert_zero (hx : x.isZero) : (x.convert q nan).isZero := by
  have hmagnitude := isZero_iff.mp hx
  have hfinite : x.isFinite := by
    rw [isFinite_iff, hmagnitude]
    exact p.infinity_pos
  have h := nearest_convert q nan hfinite
  rw [value_eq_zero_iff.mpr hmagnitude, ← value_zero q] at h
  rw [isZero_iff, ← value_eq_zero_iff, (h.value_eq (isFinite_zero q)).2, value_zero]

end

/-! ## NaNs made canonical -/

theorem isNaN_canonicalNaN (p : Precision) : (canonicalNaN p).isNaN = true :=
  (NaN.canonical p).2

theorem canonical_of_isNaN (hx : x.isNaN) : x.canonical = canonicalNaN p := if_pos hx

theorem canonical_of_number (hx : x.isNaN = false) : x.canonical = x :=
  if_neg (ne_true_of_eq_false hx)

theorem isNaN_canonical (x : FloatBits p) : x.canonical.isNaN = x.isNaN := by
  cases hx : x.isNaN with
  | true => rw [canonical_of_isNaN hx, isNaN_canonicalNaN]
  | false => rw [canonical_of_number hx, hx]

/-- No NaN is canonical but the canonical one. -/
theorem eq_canonicalNaN_of_canonical (hx : x.canonical.isNaN) : x.canonical = canonicalNaN p :=
  canonical_of_isNaN ((isNaN_canonical x).symm.trans hx)

/-- Of all the NaNs that the host may give for a NaN there remains one. -/
theorem canonical_convert (nan nan' : NaN q) :
    (x.convert q nan).canonical = (x.convert q nan').canonical := by
  cases hx : x.isNaN with
  | true =>
    rw [convert_of_isNaN q hx, convert_of_isNaN q hx, canonical_of_isNaN nan.2,
      canonical_of_isNaN nan'.2]
  | false => rw [convert_congr q hx]

/-! ## Flags -/

/-- Whether two numbers of different formats are equal is decided by their units. -/
theorem signedUnits_mul_one_eq_iff :
    y.signedUnits * (one p : ℤ) = x.signedUnits * (one q : ℤ) ↔ y.value = x.value := by
  rw [value_eq, value_eq, div_eq_div_iff (by positivity) (by positivity), one_eq, one_eq]
  exact_mod_cast Iff.rfl

/-- The flags of a conversion in terms of values. -/
theorem convertFlags_eq (x : FloatBits p) (y : FloatBits q) : x.convertFlags y =
    .when x.isSignaling .invalid ∪
      (.when (decide (x.isFinite ∧ (y.isInfinite ∨ y.value ≠ x.value))) .inexact ∪
        .when (decide (x.isFinite ∧ y.isInfinite)) .overflow) := by
  have hdiffers : (y.signedUnits * (one p : ℤ) != x.signedUnits * (one q : ℤ)) =
      decide (y.value ≠ x.value) := by
    rw [Bool.eq_iff_iff, bne_iff_ne, decide_eq_true_iff, ne_eq, signedUnits_mul_one_eq_iff]
  simp only [convertFlags, hdiffers]
  cases x.isFinite <;> cases y.isInfinite <;> simp

/-- No more do the flags depend on the NaN that the host gives. -/
theorem convertFlags_convert (nan nan' : NaN q) :
    x.convertFlags (x.convert q nan) = x.convertFlags (x.convert q nan') := by
  cases hx : x.isFinite with
  | true => rw [convert_congr q (isNaN_of_isFinite hx)]
  | false => simp [convertFlags, hx]

/-- The flags of a union that are in it. -/
theorem contains_union_when (a b c : Bool) :
    let flags := FloatFlags.when a .invalid ∪ (.when b .inexact ∪ .when c .overflow)
    flags.contains .invalid = a ∧ flags.contains .inexact = b ∧ flags.contains .overflow = c ∧
      flags.contains .underflow = false ∧ flags.contains .divideByZero = false := by
  revert a b c
  decide

/-- A conversion gives the nearest number and tells by its flags what became of the value. -/
theorem converted_convert (x : FloatBits p) (q : Precision) (nan : NaN q) :
    Converted x (x.convert q nan).canonical (x.convertFlags (x.convert q nan)) := by
  obtain ⟨hinvalid, hinexact, hoverflow, hunderflow, hzero⟩ := contains_union_when x.isSignaling
    (decide (x.isFinite ∧ ((x.convert q nan).isInfinite ∨ (x.convert q nan).value ≠ x.value)))
    (decide (x.isFinite ∧ (x.convert q nan).isInfinite))
  rw [← convertFlags_eq] at hinvalid hinexact hoverflow hunderflow hzero
  have hnumber (hx : x.isNaN = false) : (x.convert q nan).canonical = x.convert q nan :=
    canonical_of_number ((isNaN_convert q).trans hx)
  constructor
  case nearest =>
    intro hx
    rw [hnumber (isNaN_of_isFinite hx)]
    exact nearest_convert q nan hx
  case sign =>
    intro hx
    rw [hnumber hx, sign_convert q hx]
  case zero =>
    intro hx
    rw [hnumber (isNaN_of_isZero hx)]
    exact convert_zero q hx
  case infinite =>
    intro hx
    rw [hnumber (isNaN_of_isInfinite hx), convert_of_infinite q hx]
    exact isInfinite_infinity q x.sign
  case nan =>
    intro hx
    exact canonical_of_isNaN ((isNaN_convert q).trans hx)
  case inexact =>
    rw [hinexact, decide_eq_true_iff]
    exact and_congr_right fun hx => by rw [hnumber (isNaN_of_isFinite hx)]
  case overflow =>
    rw [hoverflow, decide_eq_true_iff]
    exact and_congr_right fun hx => by rw [hnumber (isNaN_of_isFinite hx)]
  case invalid => rw [hinvalid]
  case underflow => exact hunderflow
  case divideByZero => exact hzero

/-- A format with a longer fraction, smaller units and a larger range has every number of the
other. -/
theorem exists_wider {d : Nat} (hx : x.isFinite) (hfraction : p.fractionBits ≤ q.fractionBits)
    (hexponent : q.unitExponent = p.unitExponent + d)
    (hroom : p.fractionBits + 2 * p.bias + d ≤ q.fractionBits + 2 * q.bias) :
    ∃ y : FloatBits q, y.isFinite ∧ y.value = x.value := by
  obtain ⟨s, k, hm, hs, hk⟩ := exists_significand p x.magnitude
  have hunits : x.units = s * 2 ^ k := by rw [units, hm, unitsOf_add hs.le hk]
  have hlt : s * 2 ^ k < 2 ^ (p.fractionBits + 2 * p.bias) := by
    rw [← hunits, Nat.pow_add, ← unitsOf_infinity]
    exact strictMono_unitsOf p (isFinite_iff.mp hx)
  have hsmall : s * 2 ^ (k + d) < 2 ^ q.fractionBits * 2 ^ (2 * q.bias) :=
    calc s * 2 ^ (k + d)
      _ = s * 2 ^ k * 2 ^ d := by rw [Nat.pow_add, Nat.mul_assoc]
      _ < 2 ^ (p.fractionBits + 2 * p.bias) * 2 ^ d :=
        Nat.mul_lt_mul_of_pos_right hlt (by positivity)
      _ ≤ 2 ^ (q.fractionBits + 2 * q.bias) := by
        rw [← Nat.pow_add]
        exact Nat.pow_le_pow_right two_pos hroom
      _ = 2 ^ q.fractionBits * 2 ^ (2 * q.bias) := Nat.pow_add ..
  have hsignificand : s < 2 * 2 ^ q.fractionBits :=
    hs.trans_le (Nat.mul_le_mul_left 2 (Nat.pow_le_pow_right two_pos hfraction))
  obtain ⟨y, hy, hsign, hyunits⟩ := exists_units_eq x.sign hsignificand hsmall
  have hscaled : (y.units / 2 ^ q.unitExponent : ℚ) = x.units / 2 ^ p.unitExponent := by
    rw [hyunits, hunits, hexponent, pow_add, pow_add, ← mul_assoc, Nat.cast_mul _ (2 ^ d),
      Nat.cast_pow, Nat.cast_ofNat, mul_div_mul_right _ _ (by positivity)]
  refine ⟨y, hy, ?_⟩
  rw [value, value, absValue_eq, absValue_eq, hsign, hscaled]

/-- A conversion from single to double precision changes no number. -/
theorem convert_double {x : FloatBits .single} (nan : NaN .double) (hx : x.isFinite) :
    (x.convert .double nan).isFinite ∧ (x.convert .double nan).value = x.value := by
  obtain ⟨y, hy, hvalue⟩ := exists_wider (q := .double) (d := 925) hx (by decide) rfl (by decide)
  have h := nearest_convert .double nan hx
  rw [← hvalue] at h ⊢
  exact h.value_eq hy

theorem convertFlags_eq_none (hx : x.isNaN = false)
    (hexact : x.isFinite → y.isFinite ∧ y.value = x.value) : x.convertFlags y = .none := by
  have hsignaling : x.isSignaling = false := by rw [isSignaling, hx, Bool.false_and]
  have hoverflow : ¬(x.isFinite ∧ y.isInfinite) := by
    rintro ⟨hfinite, hinfinite⟩
    exact ne_true_of_eq_false (isInfinite_of_isFinite (hexact hfinite).1) hinfinite
  have hchanged : ¬(x.isFinite ∧ (y.isInfinite ∨ y.value ≠ x.value)) := by
    rintro ⟨hfinite, hinfinite | hne⟩
    · exact hoverflow ⟨hfinite, hinfinite⟩
    · exact hne (hexact hfinite).2
  rw [convertFlags_eq, hsignaling, decide_eq_false hchanged, decide_eq_false hoverflow]
  rfl

/-- Going to double precision and back changes nothing. -/
theorem convert_convert {x : FloatBits .single} {nan : NaN .double} {nan' : NaN .single}
    (hx : x.isNaN = false) : (x.convert .double nan).convert .single nan' = x ∧
      (x.convert .double nan).convertFlags ((x.convert .double nan).convert .single nan')
        = .none := by
  have hnumber : (x.convert .double nan).isNaN = false := (isNaN_convert .double).trans hx
  have hsign : ((x.convert .double nan).convert .single nan').sign = x.sign :=
    (sign_convert .single hnumber).trans (sign_convert .double hx)
  rcases isNaN_eq_false_iff.mp hx with hfinite | hinfinite
  · obtain ⟨hdouble, hvalue⟩ := convert_double nan hfinite
    have hnearest := nearest_convert .single nan' hdouble
    rw [hvalue] at hnearest
    obtain ⟨hback, hsame⟩ := hnearest.value_eq hfinite
    exact ⟨eq_of_value hsame hsign,
      convertFlags_eq_none hnumber fun _ => ⟨hback, hsame.trans hvalue.symm⟩⟩
  · have hdouble : (x.convert .double nan).isInfinite := by
      rw [convert_of_infinite .double hinfinite]
      exact isInfinite_infinity .double x.sign
    have hback : ((x.convert .double nan).convert .single nan').isInfinite := by
      rw [convert_of_infinite .single hdouble]
      exact isInfinite_infinity .single _
    constructor
    · apply ext_sign_magnitude hsign
      rw [isInfinite_iff.mp hback, isInfinite_iff.mp hinfinite]
    · refine convertFlags_eq_none hnumber fun hfinite => ?_
      exact absurd (isInfinite_iff.mp hdouble) (isFinite_iff.mp hfinite).ne

end Riscv32.FloatBits
