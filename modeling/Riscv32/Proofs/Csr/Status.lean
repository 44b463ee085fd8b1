import Riscv32.Csr.Store

/-!
# Fields that share a word

The fields of `mstatus` lie apart in one word. A write to one of them leaves all others alone, two
writes to different fields may be made in either order, and of two writes to the same field the
second counts. With these laws a series of writes to several fields comes down to the last write to
each.

## Main definitions

* `BitField.Apart f g` — the fields have no bit in common.

## Main statements

* `BitField.get_set_of_apart`, `BitField.set_comm`, `BitField.set_set`, `BitField.set_get`, the laws
  of fields, and `BitField.set_eq_toggle`, a write as a change of single bits.
* `Csr.Store.mstatusField_setMstatusField`, what a field of `mstatus` holds after a write to any.
-/
namespace Riscv32

namespace BitField

/-- The fields have no bit in common. -/
def Apart (f g : BitField) : Prop := f.lo + f.width ≤ g.lo ∨ g.lo + g.width ≤ f.lo

instance (f g : BitField) : Decidable (f.Apart g) := inferInstanceAs (Decidable (_ ∨ _))

variable {f g : BitField}

theorem Apart.symm (h : f.Apart g) : g.Apart f := Or.symm h

/-- A bit of the value of a field is the bit of the word that lies there. -/
theorem getLsbD_get (f : BitField) (w : Word) {i : Nat} (hi : i < 32) :
    (f.get w).getLsbD i = (decide (i < f.width) && w.getLsbD (f.lo + i)) := by
  rw [get, BitVec.getLsbD_and, BitVec.getLsbD_ushiftRight, getLsbD_mask, decide_eq_true hi,
    Bool.true_and, Bool.and_comm]

/-- A write leaves every field alone that lies apart from its own. -/
theorem get_set_of_apart (h : f.Apart g) (w v : Word) : g.get (f.set w v) = g.get w := by
  apply BitVec.eq_of_getLsbD_eq
  intro i hi
  rw [getLsbD_get _ _ hi, getLsbD_get _ _ hi]
  by_cases hwidth : i < g.width
  · by_cases hword : g.lo + i < 32
    · have hout : ¬ (f.lo ≤ g.lo + i ∧ g.lo + i < f.lo + f.width) := by
        rintro ⟨hlo, hhi⟩
        rcases h with h | h <;> omega
      rw [getLsbD_set f w v hword, if_neg hout]
    · rw [BitVec.getLsbD_of_ge _ _ (by omega), BitVec.getLsbD_of_ge _ _ (by omega)]
  · rw [decide_eq_false hwidth, Bool.false_and, Bool.false_and]

/-- Writes to fields that lie apart may be made in either order. -/
theorem set_comm (h : f.Apart g) (w v u : Word) : f.set (g.set w v) u = g.set (f.set w u) v := by
  apply BitVec.eq_of_getLsbD_eq
  intro i hi
  rw [getLsbD_set _ _ _ hi, getLsbD_set _ _ _ hi, getLsbD_set _ _ _ hi, getLsbD_set _ _ _ hi]
  by_cases hf : f.lo ≤ i ∧ i < f.lo + f.width
  · have hg : ¬ (g.lo ≤ i ∧ i < g.lo + g.width) := by
      rintro ⟨hlo, hhi⟩
      rcases h with h | h <;> omega
    rw [if_pos hf, if_neg hg, if_pos hf]
  · rw [if_neg hf, if_neg hf]

/-- Of two writes to a field the second counts. -/
theorem set_set (f : BitField) (w v u : Word) : f.set (f.set w v) u = f.set w u := by
  apply BitVec.eq_of_getLsbD_eq
  intro i hi
  rw [getLsbD_set _ _ _ hi, getLsbD_set _ _ _ hi, getLsbD_set _ _ _ hi]
  split <;> rfl

/-- Writing what a field holds changes nothing. -/
theorem set_get (f : BitField) (w : Word) : f.set w (f.get w) = w := by
  apply BitVec.eq_of_getLsbD_eq
  intro i hi
  rw [getLsbD_set _ _ _ hi]
  split
  case isTrue hin =>
    have hwidth : i - f.lo < f.width := by omega
    rw [getLsbD_get _ _ (by omega), decide_eq_true hwidth, Bool.true_and, Nat.add_sub_cancel' hin.1]
  case isFalse => rfl

/-- A write toggles exactly the bits of the field that differ. -/
theorem set_eq_toggle (f : BitField) (w v : Word) :
    f.set w v = w ^^^ ((f.get w ^^^ (v &&& f.mask)) <<< f.lo) := by
  apply BitVec.eq_of_getLsbD_eq
  intro i hi
  rw [getLsbD_set _ _ _ hi, BitVec.getLsbD_xor, BitVec.getLsbD_shiftLeft, BitVec.getLsbD_xor,
    BitVec.getLsbD_and, getLsbD_mask]
  by_cases hlow : f.lo ≤ i
  · have hbit : i - f.lo < 32 := by omega
    rw [getLsbD_get f w hbit, Nat.add_sub_cancel' hlow]
    by_cases hhigh : i < f.lo + f.width
    · have hwidth : i - f.lo < f.width := by omega
      simp [hlow, hhigh, hi, hbit, hwidth, Nat.not_lt.mpr hlow]
    · have hwidth : ¬ i - f.lo < f.width := by omega
      simp [hhigh, hwidth]
  · have hbelow : i < f.lo := by omega
    simp [hlow, hbelow]

end BitField

namespace MstatusField

variable {f g : MstatusField}

/-- The fields of `mstatus` lie in the word. -/
theorem fits (f : MstatusField) : f.bits.lo + f.bits.width ≤ 32 := by cases f <;> decide

/-- Different fields of `mstatus` have no bit in common. -/
theorem apart (h : f ≠ g) : f.bits.Apart g.bits := by
  cases f <;> cases g <;> first | exact absurd rfl h | decide

end MstatusField

namespace Csr.Store

/-- A write to a field of `mstatus` is one to its bits, and leaves every other register alone. -/
theorem raw_setMstatusField (s : Store) (f : MstatusField) (v addr : Word) :
    (s.setMstatusField f v).raw addr =
      if mstatus = addr then f.bits.set (s.raw mstatus) v else s.raw addr := raw_setRaw ..

/-- A write to a field of `mstatus` toggles the bits of the field that differ from the value. -/
theorem setMstatusField_eq_toggle (s : Store) (f : MstatusField) (v : Word) :
    s.setMstatusField f v = s.setRaw mstatus
      (s.raw mstatus ^^^ ((s.mstatusField f ^^^ (v &&& f.bits.mask)) <<< f.bits.lo)) := by
  rw [setMstatusField, setField, BitField.set_eq_toggle, mstatusField]

/-- A field of `mstatus` holds what was written to it, and no write to another field changes it. -/
theorem mstatusField_setMstatusField (s : Store) (f g : MstatusField) (v : Word) :
    (s.setMstatusField f v).mstatusField g =
      if f = g then v &&& f.bits.mask else s.mstatusField g := by
  rw [mstatusField, raw_setMstatusField, if_pos rfl]
  by_cases h : f = g
  · subst h
    rw [if_pos rfl, BitField.get_set _ f.fits]
  · rw [if_neg h, BitField.get_set_of_apart (MstatusField.apart h)]
    rfl

/-- Storing a word leaves every other slot alone. -/
theorem slot_setRaw_of_ne {s : Store} {addr b : Word} (h : addr ≠ b) (v : Word) :
    (s.setRaw addr v).slot b = s.slot b := by
  rw [setRaw, slot_setSlot, if_neg h]

end Csr.Store
end Riscv32
