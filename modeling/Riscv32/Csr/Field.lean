import Riscv32.Word

/-!
# Bit fields

A field is a run of bits of a word. Reading it gives those bits at the bottom of a word;
writing it replaces them by the low bits of a value and leaves all others alone.
-/
namespace Riscv32

/-- The bits from `lo` up to but not including `lo + width`. -/
structure BitField where
  lo : Nat
  width : Nat
  deriving DecidableEq

namespace BitField

/-- A word with as many low ones as the field is wide. -/
def mask (f : BitField) : Word := BitVec.ofNat 32 ((1 <<< f.width) - 1)

/-- The value of the field. -/
def get (f : BitField) (w : Word) : Word := (w >>> f.lo) &&& f.mask

/-- The word with the field replaced by the low bits of `v`. -/
def set (f : BitField) (w v : Word) : Word :=
  (w &&& ~~~(f.mask <<< f.lo)) ||| ((v &&& f.mask) <<< f.lo)

theorem getLsbD_mask (f : BitField) (i : Nat) :
    f.mask.getLsbD i = (decide (i < 32) && decide (i < f.width)) := by
  simp [mask, BitVec.getLsbD_ofNat, Nat.one_shiftLeft, Nat.testBit_two_pow_sub_one]

/-- A write replaces the bits of the field and keeps all others. -/
theorem getLsbD_set (f : BitField) (w v : Word) {i : Nat} (hi : i < 32) :
    (f.set w v).getLsbD i =
      if f.lo ≤ i ∧ i < f.lo + f.width then v.getLsbD (i - f.lo) else w.getLsbD i := by
  simp only [set, BitVec.getLsbD_and, BitVec.getLsbD_or, BitVec.getLsbD_not,
    BitVec.getLsbD_shiftLeft, getLsbD_mask]
  by_cases hl : f.lo ≤ i
  · by_cases hw : i < f.lo + f.width
    · simp [hi, hl, hw, show i - f.lo < 32 by omega, show i - f.lo < f.width by omega,
        show ¬ i < f.lo by omega]
    · simp [hi, hw, show ¬ i - f.lo < f.width by omega]
  · simp [hi, hl, show i < f.lo by omega]

/-- Reading a field back gives the bits that were written to it. -/
theorem get_set (f : BitField) (h : f.lo + f.width ≤ 32) (w v : Word) :
    f.get (f.set w v) = v &&& f.mask := by
  apply BitVec.eq_of_getLsbD_eq
  intro i hi
  rw [get, BitVec.getLsbD_and, BitVec.getLsbD_and, BitVec.getLsbD_ushiftRight, getLsbD_mask]
  by_cases hw : i < f.width
  · rw [getLsbD_set f w v (by omega), if_pos (by omega), Nat.add_sub_cancel_left]
  · simp [hw]

end BitField

/-- The fields of `mstatus`. -/
inductive MstatusField
  | uie | sie | mie | upie | spie | mpie | spp | mpp | fs | xs | mprv | sum | mxr | tvm | tw
  | tsr | sd
  deriving DecidableEq, Inhabited

/-- The bits of a field of `mstatus`. -/
def MstatusField.bits : MstatusField → BitField
  | uie => ⟨0, 1⟩
  | sie => ⟨1, 1⟩
  | mie => ⟨3, 1⟩
  | upie => ⟨4, 1⟩
  | spie => ⟨5, 1⟩
  | mpie => ⟨7, 1⟩
  | spp => ⟨8, 1⟩
  | mpp => ⟨11, 2⟩
  | fs => ⟨13, 2⟩
  | xs => ⟨15, 2⟩
  | mprv => ⟨17, 1⟩
  | sum => ⟨18, 1⟩
  | mxr => ⟨19, 1⟩
  | tvm => ⟨20, 1⟩
  | tw => ⟨21, 1⟩
  | tsr => ⟨22, 1⟩
  | sd => ⟨31, 1⟩

/-- The accrued exception flags in `fcsr`. -/
def BitField.floatFlags : BitField := ⟨0, 5⟩

/-- The dynamic rounding mode in `fcsr`. -/
def BitField.roundingMode : BitField := ⟨5, 3⟩

end Riscv32
