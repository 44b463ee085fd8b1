import Mathlib.Tactic.Basic
import Riscv32.Instruction.Field

/-!
# Fields in their places

An instruction word is the disjunction of fields, each moved to its place. A field is read where
it was placed and is not seen anywhere else, so what is read from the whole word is what was put
there. Conversely a field that is read from a word and placed again is the part of the word in the
span of the field, and spans that cover a word make up the word.

## Main definitions

* `Word.span lo n` — ones in the `n` bits from `lo` on, and zeros around them.

## Main statements

* `Word.extractLsb'_place_self`, `Word.extractLsb'_place_apart`, reading what was placed.
* `Word.place_extractLsb'`, placing what was read.
* `Word.placeI_immI` and its like, the same for the scattered immediates.
-/
namespace Riscv32.Word

variable {n k lo start : Nat}

/-! ## Reading what was placed -/

theorem getLsbD_place (lo : Nat) (f : BitVec n) (i : Nat) :
    (place lo f).getLsbD i = (decide (i < 32) && decide (lo ≤ i) && f.getLsbD (i - lo)) := by
  rw [place, BitVec.getLsbD_shiftLeft, BitVec.getLsbD_setWidth]
  by_cases h : i < 32
  · have hsub : i - lo < 32 := by omega
    by_cases hlo : lo ≤ i
    · simp [h, hlo, hsub, Nat.not_lt.2 hlo]
    · simp [hlo, Nat.not_le.1 hlo]
  · simp [h]

/-- A field is read where it was placed. -/
@[simp] theorem extractLsb'_place_self (h : lo + n ≤ 32) (f : BitVec n) :
    (place lo f).extractLsb' lo n = f := by
  apply BitVec.eq_of_getLsbD_eq
  intro i hi
  have hfit : lo + i < 32 := by omega
  rw [BitVec.getLsbD_extractLsb', getLsbD_place]
  simp [hi, hfit]

/-- A field is not seen outside of its place. -/
@[simp] theorem extractLsb'_place_apart (h : start + k ≤ lo ∨ lo + n ≤ start) (f : BitVec n) :
    (place lo f).extractLsb' start k = 0#k := by
  apply BitVec.eq_of_getLsbD_eq
  intro i hi
  rw [BitVec.getLsbD_extractLsb', getLsbD_place, BitVec.getLsbD_zero]
  rcases h with h | h
  · have hlo : ¬ lo ≤ start + i := by omega
    simp [hlo]
  · have hge := BitVec.getLsbD_of_ge f (start + i - lo) (by omega)
    simp [hge]

@[simp] theorem place_zero (lo n : Nat) : place lo 0#n = 0#32 := by simp [place]

/-- The two low bits of every instruction as a field. -/
theorem three_eq_place : 3#32 = place 0 3#2 := by decide

/-! ## Placing what was read -/

/-- Ones in the `n` bits from `lo` on. -/
def span (lo n : Nat) : Word := place lo (BitVec.allOnes n)

theorem place_extractLsb' (w : Word) (lo n : Nat) :
    place lo (w.extractLsb' lo n) = w &&& span lo n := by
  apply BitVec.eq_of_getLsbD_eq
  intro i hi
  rw [BitVec.getLsbD_and, span, getLsbD_place, getLsbD_place, BitVec.getLsbD_extractLsb',
    BitVec.getLsbD_allOnes]
  by_cases hlo : lo ≤ i
  · simp [hlo, hi, Bool.and_comm]
  · simp [hlo]

/-- A field that a mask lets through. -/
theorem extractLsb'_and_of_eq_allOnes {mask : Word}
    (h : mask.extractLsb' start k = BitVec.allOnes k) (w : Word) :
    (w &&& mask).extractLsb' start k = w.extractLsb' start k := by
  rw [BitVec.extractLsb'_and, h, BitVec.and_allOnes]

/-- A field that bits placed elsewhere do not touch. -/
theorem extractLsb'_or_of_eq_zero {ones : Word} (h : ones.extractLsb' start k = 0#k) (w : Word) :
    (w ||| ones).extractLsb' start k = w.extractLsb' start k := by
  rw [BitVec.extractLsb'_or, h, BitVec.or_zero]

/-- The whole word is left if the mask is full. -/
theorem and_full {mask : Word} (h : mask = BitVec.allOnes 32) (w : Word) : w &&& mask = w := by
  rw [h, BitVec.and_allOnes]

/-- Behind ones it does not matter what a mask hides. -/
theorem and_or_full {mask ones : Word} (h : mask ||| ones = BitVec.allOnes 32) (w : Word) :
    w &&& mask ||| ones = w ||| ones := by
  apply BitVec.eq_of_getLsbD_eq
  intro i hi
  have hbit := congrArg (·.getLsbD i) h
  simp only [BitVec.getLsbD_or, BitVec.getLsbD_allOnes, hi, decide_true, Bool.or_eq_true] at hbit
  rw [BitVec.getLsbD_or, BitVec.getLsbD_or, BitVec.getLsbD_and]
  rcases hbit with hmask | hones
  · rw [hmask, Bool.and_true]
  · rw [hones, Bool.or_true, Bool.or_true]

/-! ## Unsigned fields -/

/-- The low bits of a number are its remainder. -/
theorem setWidth_extractLsb' (v : Word) (h : n < 32) :
    (v.extractLsb' 0 n).setWidth 32 = v % BitVec.ofNat 32 (1 <<< n) := by
  apply BitVec.eq_of_toNat_eq
  have hpow : 2 ^ n < 2 ^ 32 := Nat.pow_lt_pow_right (by decide) h
  have hmod := Nat.mod_lt v.toNat (Nat.two_pow_pos n)
  rw [BitVec.toNat_setWidth, BitVec.extractLsb'_toNat, BitVec.toNat_umod, BitVec.toNat_ofNat,
    Nat.shiftRight_zero, Nat.one_shiftLeft, Nat.mod_eq_of_lt hpow, Nat.mod_eq_of_lt (by omega)]

theorem extractLsb'_setWidth (f : BitVec n) (h : n ≤ 32) : (f.setWidth 32).extractLsb' 0 n = f := by
  rw [BitVec.extractLsb'_setWidth_of_le (by omega), BitVec.extractLsb'_eq_self]

/-! ## Immediates -/

/-- The sign does not reach into the bits that a number has of its own. -/
theorem extractLsb'_signExtend (f : BitVec n) (h : start + k ≤ n) (hn : n ≤ 32) :
    (f.signExtend 32).extractLsb' start k = f.extractLsb' start k := by
  apply BitVec.eq_of_getLsbD_eq
  intro i hi
  have hlt : start + i < n := by omega
  have hfit : start + i < 32 := by omega
  simp only [BitVec.getLsbD_extractLsb', BitVec.getLsbD_signExtend, hlt, hfit, decide_true,
    if_true, Bool.true_and]

theorem signExtend_extractLsb' (v : Word) (h : n ≤ 32) :
    (v.extractLsb' 0 n).signExtend 32 = v.signExtendLow n := by
  rw [signExtendLow, BitVec.setWidth_eq_extractLsb' h]

/-- Above its own bits a number repeats the last one. -/
theorem getLsbD_signExtend_min (f : BitVec (n + 1)) {i : Nat} (hi : i < 32) :
    (f.signExtend 32).getLsbD i = f.getLsbD (min i n) := by
  rw [BitVec.getLsbD_signExtend, BitVec.msb_eq_getLsbD_last, Nat.add_sub_cancel]
  by_cases hle : i ≤ n
  · simp [hi, Nat.lt_succ_of_le hle, Nat.min_eq_left hle]
  · have hge : ¬ i < n + 1 := by omega
    simp [hi, hge, Nat.min_eq_right (Nat.le_of_not_le hle)]

theorem getLsbD_clearBitZero (w : Word) (i : Nat) :
    w.clearBitZero.getLsbD i = (decide (0 < i) && w.getLsbD i) := by
  rw [clearBitZero, BitVec.getLsbD_and, BitVec.getLsbD_not]
  by_cases h : i < 32
  · cases i with
    | zero => simp
    | succ i => simp [h]
  · simp [BitVec.getLsbD_of_ge w i (by omega)]

/-- An offset that is made of all bits of a number but the lowest. -/
theorem signExtend_append_zero (v : Word) (hpos : 0 < n) :
    (v.extractLsb' 1 n ++ 0#1).signExtend 32 = (v.signExtendLow (n + 1)).clearBitZero := by
  apply BitVec.eq_of_getLsbD_eq
  intro i hi
  rw [getLsbD_clearBitZero, signExtendLow, getLsbD_signExtend_min _ hi,
    getLsbD_signExtend_min _ hi, BitVec.getLsbD_append, BitVec.getLsbD_setWidth]
  have hmin : min i n < n + 1 := by omega
  by_cases h : 0 < i
  · have hlow : ¬ min i n < 1 := by omega
    have hlt : min i n - 1 < n := by omega
    have hsucc : 1 + (min i n - 1) = min i n := by omega
    rw [if_neg hlow, BitVec.getLsbD_extractLsb', hsucc]
    simp only [h, hlt, hmin, decide_true, Bool.true_and]
  · have hlow : min i n < 1 := by omega
    simp [h, hlow]

/-- The two parts of a store offset belong together. -/
theorem signExtend_storeParts (v : Word) :
    (v.extractLsb' 5 7 ++ v.extractLsb' 0 5).signExtend 32 = v.signExtendLow 12 := by
  have hjoin : v.extractLsb' 5 7 ++ v.extractLsb' 0 5 = v.extractLsb' 0 12 :=
    BitVec.extractLsb'_append_extractLsb'_eq_extractLsb' rfl
  rw [hjoin]
  exact signExtend_extractLsb' v (by decide)

/-- The four parts of a branch offset belong together. -/
theorem signExtend_branchParts (v : Word) :
    (v.extractLsb' 12 1 ++ v.extractLsb' 11 1 ++ v.extractLsb' 5 6 ++ v.extractLsb' 1 4
      ++ 0#1).signExtend 32 = (v.signExtendLow 13).clearBitZero := by
  have hsign : v.extractLsb' 12 1 ++ v.extractLsb' 11 1 = v.extractLsb' 11 2 :=
    BitVec.extractLsb'_append_extractLsb'_eq_extractLsb' rfl
  have hhigh : v.extractLsb' 11 2 ++ v.extractLsb' 5 6 = v.extractLsb' 5 8 :=
    BitVec.extractLsb'_append_extractLsb'_eq_extractLsb' rfl
  have hlow : v.extractLsb' 5 8 ++ v.extractLsb' 1 4 = v.extractLsb' 1 12 :=
    BitVec.extractLsb'_append_extractLsb'_eq_extractLsb' rfl
  rw [hsign, hhigh, hlow]
  exact signExtend_append_zero v (by decide)

/-- The four parts of a jump offset belong together. -/
theorem signExtend_jumpParts (v : Word) :
    (v.extractLsb' 20 1 ++ v.extractLsb' 12 8 ++ v.extractLsb' 11 1 ++ v.extractLsb' 1 10
      ++ 0#1).signExtend 32 = (v.signExtendLow 21).clearBitZero := by
  have hsign : v.extractLsb' 20 1 ++ v.extractLsb' 12 8 = v.extractLsb' 12 9 :=
    BitVec.extractLsb'_append_extractLsb'_eq_extractLsb' rfl
  have hhigh : v.extractLsb' 12 9 ++ v.extractLsb' 11 1 = v.extractLsb' 11 10 :=
    BitVec.extractLsb'_append_extractLsb'_eq_extractLsb' rfl
  have hlow : v.extractLsb' 11 10 ++ v.extractLsb' 1 10 = v.extractLsb' 1 20 :=
    BitVec.extractLsb'_append_extractLsb'_eq_extractLsb' rfl
  rw [hsign, hhigh, hlow]
  exact signExtend_append_zero v (by decide)

theorem placeI_immI (w : Word) : placeI w.immI = w &&& span 20 12 := by
  simp (disch := decide) only [placeI, immI, extractLsb'_signExtend, BitVec.extractLsb'_eq_self,
    place_extractLsb']

theorem placeS_immS (w : Word) : placeS w.immS = w &&& (span 25 7 ||| span 7 5) := by
  simp (disch := decide) only [placeS, immS, extractLsb'_signExtend,
    BitVec.extractLsb'_append_eq_of_le, BitVec.extractLsb'_append_eq_of_add_le, Nat.sub_self,
    BitVec.extractLsb'_eq_self, place_extractLsb', BitVec.and_or_distrib_left]

theorem placeB_immB (w : Word) :
    placeB w.immB = w &&& (span 31 1 ||| span 25 6 ||| span 8 4 ||| span 7 1) := by
  simp (disch := decide) only [placeB, immB, extractLsb'_signExtend,
    BitVec.extractLsb'_append_eq_of_le, BitVec.extractLsb'_append_eq_of_add_le, Nat.reduceSub,
    BitVec.extractLsb'_eq_self, place_extractLsb', BitVec.and_or_distrib_left]

theorem placeU_immU (w : Word) : placeU w.immU = w &&& span 12 20 := by
  simp (disch := decide) only [placeU, immU, extractLsb'_signExtend, BitVec.extractLsb'_eq_self,
    place_extractLsb']

theorem placeJ_immJ (w : Word) :
    placeJ w.immJ = w &&& (span 31 1 ||| span 21 10 ||| span 20 1 ||| span 12 8) := by
  simp (disch := decide) only [placeJ, immJ, extractLsb'_signExtend,
    BitVec.extractLsb'_append_eq_of_le, BitVec.extractLsb'_append_eq_of_add_le, Nat.reduceSub,
    BitVec.extractLsb'_eq_self, place_extractLsb', BitVec.and_or_distrib_left]

end Riscv32.Word
