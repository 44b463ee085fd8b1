import Riscv32.Error
import Riscv32.Float.Precision
import Riscv32.Register.Name
import Std.Data.TreeMap

/-!
# The register file

Thirty-two integer registers, of which register 0 always reads zero, and thirty-two
floating-point registers of one width. A floating-point register holds bits: a narrower value
is extended with zeros and a wider one loses its upper half. Registers are reached by index or
by name; a file in unlimited mode gives every unknown name a register of its own. The file
remembers the integer register read last and the one written last, for display only.
-/
namespace Riscv32

open Numeral

/-- The integer registers. -/
structure IntegerRegisters where
  cells : Vector Word Register.count := Vector.replicate _ 0
  deriving DecidableEq

namespace IntegerRegisters

/-- The content of a register; register 0 and any index outside the file read zero. -/
def read (r : IntegerRegisters) (i : Nat) : Word :=
  if i = 0 then 0 else r.cells[i]?.getD 0

/-- Whether a write to the index is kept. -/
def writable (i : Nat) : Bool := decide (0 < i) && decide (i < Register.count)

/-- Writes a register; a write to register 0 or outside the file is discarded. -/
def write (r : IntegerRegisters) (i : Nat) (v : Word) : IntegerRegisters :=
  if writable i then ⟨r.cells.setIfInBounds i v⟩ else r

@[simp] theorem read_zero (r : IntegerRegisters) : r.read 0 = 0 := rfl

theorem read_write (r : IntegerRegisters) (i j : Nat) (v : Word) :
    (r.write i v).read j = if writable i ∧ i = j then v else r.read j := by
  by_cases hw : writable i = true
  · by_cases hij : i = j
    · subst hij
      have h := hw
      simp only [writable, Bool.and_eq_true, decide_eq_true_eq] at h
      simp [write, read, hw, Nat.ne_of_gt h.1, h.2]
    · simp [write, read, hw, hij]
  · simp [write, hw]

end IntegerRegisters

/-- The floating-point registers. -/
structure FloatRegisters where
  precision : Precision := .double
  cells : Vector (BitVec 64) Register.count := Vector.replicate _ 0
  deriving DecidableEq

namespace FloatRegisters

/-- The bits that a register of the given width keeps of a pattern. -/
def truncate (p : Precision) (bits : BitVec 64) : BitVec 64 := (bits.setWidth p.width).setWidth 64

/-- The raw content of a register, zero outside the file. -/
def readBits (r : FloatRegisters) (i : Nat) : BitVec 64 := r.cells[i]?.getD 0

/-- Writes raw bits, cut to the width of the registers. -/
def writeBits (r : FloatRegisters) (i : Nat) (bits : BitVec 64) : FloatRegisters :=
  { r with cells := r.cells.setIfInBounds i (truncate r.precision bits) }

/-- The content of a register as a number of either precision. -/
def read (r : FloatRegisters) (p : Precision) (i : Nat) : FloatBits p :=
  (r.readBits i).setWidth p.width

/-- Writes a number of either precision. -/
def write (r : FloatRegisters) (p : Precision) (i : Nat) (x : FloatBits p) : FloatRegisters :=
  r.writeBits i (x.setWidth 64)

theorem readBits_writeBits (r : FloatRegisters) (i j : Nat) (bits : BitVec 64) :
    (r.writeBits i bits).readBits j =
      if i < Register.count ∧ i = j then truncate r.precision bits else r.readBits j := by
  by_cases hij : i = j
  · subst hij
    by_cases h : i < Register.count <;> simp [writeBits, readBits, h]
  · simp [writeBits, readBits, hij]

/-- Registers keep the bits of a number that is no wider than they are. -/
theorem truncate_setWidth {p q : Precision} (h : q.width ≤ p.width) (x : FloatBits q) :
    truncate p (x.setWidth 64) = x.setWidth 64 := by
  have hwide : p.width ≤ 64 := by cases p <;> decide
  rw [truncate, BitVec.setWidth_setWidth_of_le x hwide, BitVec.setWidth_setWidth (by omega)]

/-- A register of the file holds the bits of a number that is written to it, with zeros above them,
if it is wide enough. -/
theorem readBits_write_self (r : FloatRegisters) {p : Precision} {i : Nat}
    (hp : p.width ≤ r.precision.width) (hi : i < Register.count) (x : FloatBits p) :
    (r.write p i x).readBits i = x.setWidth 64 := by
  rw [write, readBits_writeBits, if_pos ⟨hi, rfl⟩, truncate_setWidth hp]

/-- A register of the file holds the number that is written to it, if it is wide enough. -/
theorem read_write_self (r : FloatRegisters) {p : Precision} {i : Nat}
    (hp : p.width ≤ r.precision.width) (hi : i < Register.count) (x : FloatBits p) :
    (r.write p i x).read p i = x := by
  have hwide : p.width ≤ 64 := by cases p <;> decide
  rw [read, readBits_write_self r hp hi, BitVec.setWidth_setWidth (by omega), BitVec.setWidth_eq]

end FloatRegisters

/-- The registers of a hart. -/
structure RegisterFile where
  integers : IntegerRegisters := {}
  floats : FloatRegisters := {}
  unlimited : Bool := false
  symbolic : Std.TreeMap String Word := ∅
  lastRead : Option Nat := none
  lastWritten : Option Nat := none

namespace RegisterFile

/-- A file of zeros with floating-point registers of the given precision. -/
def ofPrecision (p : Precision) (unlimited : Bool) : RegisterFile :=
  { floats := { precision := p }, unlimited }

/-- The content of an integer register. -/
def peek (f : RegisterFile) (i : Nat) : Word := f.integers.read i

/-- The file with the integer register marked as the one read last. -/
def markRead (f : RegisterFile) (i : Nat) : RegisterFile := { f with lastRead := some i }

/-- Reads an integer register and marks it. -/
def read (f : RegisterFile) (i : Nat) : Word × RegisterFile := (f.peek i, f.markRead i)

/-- Writes an integer register and marks it, if the write is kept. -/
def write (f : RegisterFile) (i : Nat) (v : Word) : RegisterFile :=
  if IntegerRegisters.writable i then
    { f with integers := f.integers.write i v, lastWritten := some i }
  else f

theorem peek_write (f : RegisterFile) (i j : Nat) (v : Word) :
    (f.write i v).peek j = if IntegerRegisters.writable i ∧ i = j then v else f.peek j := by
  rw [peek, peek, ← IntegerRegisters.read_write, write]
  by_cases hw : IntegerRegisters.writable i = true
  · rw [if_pos hw]
  · rw [if_neg hw, IntegerRegisters.write, if_neg hw]

/-- A register of the file other than register 0 holds what is written to it. -/
theorem peek_write_self (f : RegisterFile) {i : Nat} (hi : i ≠ Register.zero)
    (hlt : i < Register.count) (v : Word) : (f.write i v).peek i = v := by
  have hwritable : IntegerRegisters.writable i = true := by
    rw [IntegerRegisters.writable, decide_eq_true (Nat.pos_of_ne_zero hi), decide_eq_true hlt]
    rfl
  rw [peek_write, if_pos ⟨hwritable, rfl⟩]

/-- Reads the register of a name. -/
def get (f : RegisterFile) (name : String) : Except RegisterError (Word × RegisterFile) :=
  match Register.integerIndex? name with
  | some i => .ok (f.read i)
  | none => if f.unlimited then .ok (f.symbolic.getD name 0, f) else .error (.unknown name)

/-- Writes the register of a name and tells whether the write was kept. -/
def set (f : RegisterFile) (name : String) (v : Word) :
    Except RegisterError (Bool × RegisterFile) :=
  match Register.integerIndex? name with
  | some i => .ok (IntegerRegisters.writable i, f.write i v)
  | none =>
    if f.unlimited then .ok (true, { f with symbolic := f.symbolic.insert name v })
    else .error (.unknown name)

/-- The floating-point register of a name. -/
def floatIndex (name : String) : Except RegisterError Nat :=
  match Register.floatIndex? name with
  | some i => .ok i
  | none => .error (.unknown name)

/-- Reads the floating-point register of a name at the precision of the file. -/
def getFloat (f : RegisterFile) (name : String) : Except RegisterError FloatValue := do
  let i ← floatIndex name
  return ⟨f.floats.precision, f.floats.read f.floats.precision i⟩

/-- Writes a number to the floating-point register of a name. -/
def setFloat (f : RegisterFile) (name : String) (x : FloatValue) :
    Except RegisterError RegisterFile := do
  let i ← floatIndex name
  return { f with floats := f.floats.write x.precision i x.bits }

/-- The sign after a register in the display: `>` for the one written last, `<` for the one
read last. -/
def marker (f : RegisterFile) (i : Nat) : String :=
  if f.lastWritten = some i then ">" else if f.lastRead = some i then "<" else " "

/-- The display of one integer register, with a line break after every fourth. -/
def cellText (f : RegisterFile) (i : Nat) (name : String) : String :=
  s!"{columnRight 4 name}={hexWord (f.peek i)}{f.marker i} "
    ++ if i % 4 = 3 then "\n" else ""

/-- The display of the integer registers, four in a line, and of the symbolic ones in the
order of their names. -/
def text (f : RegisterFile) : String :=
  String.join (Register.integerNames.mapIdx fun i name => f.cellText i name)
    ++ String.join (f.symbolic.toList.map fun (name, v) => s!"{name}={hexWord v}\n")

end RegisterFile
end Riscv32
