import Riscv32.Error
import Riscv32.Instruction.Table
import Std.Data.TreeMap

/-!
# Decoding

A word whose two low bits are ones decodes through the row of the opcode tables that accepts
it. Any other word is an illegal instruction. The rows are looked up by opcode, and the fixed
words as well as some that occur all the time are known by heart. Neither can be seen from what a
word decodes to.
-/
namespace Riscv32

/-- A decoded word. -/
structure Decoded where
  mnemonic : String
  operands : List Word
  encoding : Word
  format : Format
  floatMask : Nat
  deriving DecidableEq

/-- What a word of the row decodes to. -/
def Encoding.decoded (e : Encoding) (w : Word) : Decoded :=
  ⟨e.mnemonic, e.operands w, w, e.format, e.floatMask⟩

/-- Rows by opcode, in the order in which they were added. -/
structure OpcodeIndex where
  byOpcode : Std.TreeMap Nat (List Encoding) := ∅

namespace OpcodeIndex

/-- The rows of an opcode. -/
def rows (index : OpcodeIndex) (opcode : BitVec 5) : List Encoding :=
  index.byOpcode.getD opcode.toNat []

/-- Adds a row behind the others of its opcode. -/
def add (index : OpcodeIndex) (e : Encoding) : OpcodeIndex :=
  ⟨index.byOpcode.insert e.opcode.toNat (index.rows e.opcode ++ [e])⟩

/-- The index of a list of rows. -/
def ofRows (rows : List Encoding) : OpcodeIndex := rows.foldl add {}

/-- The first row of its opcode that accepts a word. -/
def find? (index : OpcodeIndex) (w : Word) : Option Encoding :=
  (index.rows w.opcode).find? (·.accepts w)

-- Irreducible, as unfolding it builds the whole index.
/-- The rows of all opcode tables. -/
@[irreducible] def standard : OpcodeIndex := ofRows Encoding.table

end OpcodeIndex

namespace Decoded

/-- The words that are known by heart: the empty instruction, the return from a call, the usual
moves of the stack pointer, and the fixed words. -/
def known : List Decoded :=
  [⟨"addi", [0, 0, 0], 0x00000013, .i, 0⟩,
    ⟨"jalr", [0, 1, 0], 0x00008067, .i, 0⟩,
    ⟨"addi", [2, 2, -32], 0xFE010113, .i, 0⟩,
    ⟨"addi", [2, 2, 32], 0x02010113, .i, 0⟩,
    ⟨"ecall", [], 0x00000073, .fixed, 0⟩,
    ⟨"ebreak", [], 0x00100073, .fixed, 0⟩,
    ⟨"mret", [], 0x30200073, .fixed, 0⟩,
    ⟨"sret", [], 0x10200073, .fixed, 0⟩,
    ⟨"uret", [], 0x00200073, .fixed, 0⟩,
    ⟨"wfi", [], 0x10500073, .fixed, 0⟩]

/-- What a word decodes to, if it is known by heart. -/
def known? (w : Word) : Option Decoded := known.find? (·.encoding == w)

end Decoded

/-- Decodes a word through the row that was found for it. -/
def decodeThrough (w : Word) : Option Encoding → Except DecodeError Decoded
  | some e => .ok (e.decoded w)
  | none => .error (.illegalInstruction w)

/-- Decodes a word with the rows of an index. -/
def OpcodeIndex.decode (index : OpcodeIndex) (w : Word) : Except DecodeError Decoded :=
  match Decoded.known? w with
  | some d => .ok d
  | none =>
    if w.extractLsb' 0 2 = 3 then decodeThrough w (index.find? w)
    else .error (.illegalInstruction w)

/-- Decodes a word. -/
def decode (w : Word) : Except DecodeError Decoded := OpcodeIndex.standard.decode w

end Riscv32
