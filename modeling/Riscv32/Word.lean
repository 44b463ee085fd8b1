/-!
# Machine words

The 32-bit words the hart computes with, the 8-bit bytes its memory is made of and the 64-bit
counters it keeps. All are bit vectors: they have an unsigned reading `toNat` and a two's
complement reading `toInt`, and all arithmetic on them wraps.
-/
namespace Riscv32

/-- A 32-bit machine word. -/
abbrev Word := BitVec 32

/-- A byte of memory. -/
abbrev Byte := BitVec 8

/-- A 64-bit count of steps, instructions or ticks of the clock. -/
abbrev Counter := BitVec 64

namespace Word

/-- The word that a comparison writes: one for true and zero for false. -/
def ofBool (b : Bool) : Word := if b then 1 else 0

/-- Whether the word is a multiple of four, the size of every instruction. -/
def isAligned (w : Word) : Bool := w.extractLsb' 0 2 == 0

/-- The word with its lowest bit cleared. -/
def clearBitZero (w : Word) : Word := w &&& ~~~1

/-- The amount of a shift: the low five bits of the word. -/
def shiftAmount (w : Word) : Nat := (w.extractLsb' 0 5).toNat

@[simp] theorem ofBool_true : ofBool true = 1 := rfl
@[simp] theorem ofBool_false : ofBool false = 0 := rfl

/-- Alignment is divisibility by four of the unsigned reading. -/
theorem isAligned_iff (w : Word) : w.isAligned = true ↔ w.toNat % 4 = 0 := by
  simp [isAligned, ← BitVec.toNat_inj, BitVec.extractLsb'_toNat]

end Word

/-- The largest multiple of `align` at or below `n`. -/
def alignDown (n align : Nat) : Nat := n / align * align

/-- The least multiple of a positive `align` at or above `n`. -/
def alignUp (n align : Nat) : Nat := (n + align - 1) / align * align

theorem alignDown_le (n align : Nat) : alignDown n align ≤ n := Nat.div_mul_le_self n align

theorem le_alignUp (n : Nat) {align : Nat} (h : 0 < align) : n ≤ alignUp n align := by
  have hm := Nat.mod_lt (n + align - 1) h
  have hd := Nat.div_add_mod (n + align - 1) align
  rw [alignUp, Nat.mul_comm]
  omega

theorem dvd_alignDown (n align : Nat) : align ∣ alignDown n align := Nat.dvd_mul_left align _

theorem dvd_alignUp (n align : Nat) : align ∣ alignUp n align := Nat.dvd_mul_left align _

theorem alignUp_le {n align k : Nat} (h : 0 < align) (hk : align ∣ k) (hn : n ≤ k) :
    alignUp n align ≤ k := by
  obtain ⟨c, rfl⟩ := hk
  have hlt : n + align - 1 < (c + 1) * align := by
    rw [Nat.add_mul, Nat.one_mul, Nat.mul_comm c]
    omega
  have hle : (n + align - 1) / align ≤ c := Nat.lt_succ_iff.1 ((Nat.div_lt_iff_lt_mul h).2 hlt)
  rw [alignUp, Nat.mul_comm]
  exact Nat.mul_le_mul_left align hle

end Riscv32
