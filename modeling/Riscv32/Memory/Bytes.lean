import Riscv32.Word
import Std.Data.TreeMap

/-!
# Bytes

A byte store has a size and holds a byte at every offset below it. Only bytes that were
written are kept; all others are zero, so that a fresh store of any size costs nothing. Numbers
are laid out with their lowest byte first.
-/
namespace Riscv32

/-- The lowest `n` bytes of a number, lowest first. -/
def littleEndian : Nat → Nat → List Byte
  | 0, _ => []
  | n + 1, v => BitVec.ofNat 8 v :: littleEndian n (v / 256)

/-- The number whose bytes, lowest first, are given. -/
def ofLittleEndian : List Byte → Nat
  | [] => 0
  | b :: bs => b.toNat + 256 * ofLittleEndian bs

@[simp] theorem length_littleEndian (n v : Nat) : (littleEndian n v).length = n := by
  induction n generalizing v with
  | zero => rfl
  | succ n ih => simp [littleEndian, ih]

/-- Reading back a number of which `n` bytes were written gives its low `n` bytes. -/
theorem ofLittleEndian_littleEndian (n v : Nat) :
    ofLittleEndian (littleEndian n v) = v % (1 <<< (8 * n)) := by
  induction n generalizing v with
  | zero => simp [littleEndian, ofLittleEndian, Nat.mod_one]
  | succ n ih =>
    have hbits : 1 <<< (8 * (n + 1)) = 256 * (1 <<< (8 * n)) := by
      rw [Nat.one_shiftLeft, Nat.one_shiftLeft, Nat.mul_succ, Nat.pow_add, Nat.mul_comm]
    rw [littleEndian, ofLittleEndian, ih, hbits, Nat.mod_mul]
    rfl

/-- A span of bytes. -/
structure ByteStore where
  size : Nat
  written : Std.TreeMap Nat Byte := ∅

namespace ByteStore

/-- A span of zeros. -/
def zeros (size : Nat) : ByteStore := { size }

/-- The byte at an offset, zero if it was never written. -/
def get (s : ByteStore) (i : Nat) : Byte := s.written.getD i 0

/-- Replaces the byte at an offset. -/
def set (s : ByteStore) (i : Nat) (b : Byte) : ByteStore :=
  { s with written := s.written.insert i b }

/-- Replaces the bytes from an offset on. -/
def write (s : ByteStore) (i : Nat) : List Byte → ByteStore
  | [] => s
  | b :: bs => (s.set i b).write (i + 1) bs

/-- The `n` bytes from an offset on. -/
def read (s : ByteStore) (i n : Nat) : List Byte := (List.range' i n).map s.get

/-- A span that holds the given bytes. -/
def ofList (bs : List Byte) : ByteStore := (zeros bs.length).write 0 bs

/-- All bytes of the span. -/
def toList (s : ByteStore) : List Byte := s.read 0 s.size

@[simp] theorem get_zeros (n i : Nat) : (zeros n).get i = 0 := by simp [zeros, get]

@[simp] theorem get_set (s : ByteStore) (i j : Nat) (b : Byte) :
    (s.set i b).get j = if i = j then b else s.get j := by
  simp [set, get, Std.TreeMap.getD_insert]

@[simp] theorem size_set (s : ByteStore) (i : Nat) (b : Byte) : (s.set i b).size = s.size := rfl

@[simp] theorem size_write (s : ByteStore) (i : Nat) (bs : List Byte) :
    (s.write i bs).size = s.size := by
  induction bs generalizing s i with
  | nil => rfl
  | cons b bs ih => simp [write, ih]

/-- A write changes exactly the bytes it covers. -/
theorem get_write (s : ByteStore) (i j : Nat) (bs : List Byte) :
    (s.write i bs).get j = if i ≤ j then bs.getD (j - i) (s.get j) else s.get j := by
  induction bs generalizing s i with
  | nil => simp [write]
  | cons b bs ih =>
    rw [write, ih]
    rcases Nat.lt_trichotomy i j with h | h | h
    · have hd : j - i = (j - (i + 1)) + 1 := by omega
      simp [Nat.succ_le_of_lt h, Nat.le_of_lt h, Nat.ne_of_lt h, hd]
    · subst h
      simp [show ¬ i + 1 ≤ i by omega]
    · simp [show ¬ i + 1 ≤ j by omega, show ¬ i ≤ j by omega, Nat.ne_of_gt h]

end ByteStore
end Riscv32
