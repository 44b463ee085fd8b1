import Riscv32.Instruction.Field

/-!
# Encodings

One row of the opcode tables says how the words of one instruction look: the opcode, the minor
opcode if it is fixed, the further bits that pick the instruction, and the format, which lays
out the operands. A row recognises its words, takes their operands apart and builds a word from
operands.
-/
namespace Riscv32

/-- The layouts of operands. -/
inductive Format
  /-- Destination and two sources. -/
  | r
  /-- Destination and one source; the second source field is part of the opcode. -/
  | rUnary
  /-- Destination and three sources. -/
  | r4
  /-- Destination, source, immediate. -/
  | i
  /-- Destination, base register, offset. -/
  | load
  /-- Destination, source, shift amount. -/
  | shift
  /-- Stored register, base register, offset. -/
  | s
  /-- Two sources and the offset of a branch. -/
  | b
  /-- Destination and upper immediate. -/
  | u
  /-- Destination and the offset of a jump. -/
  | j
  /-- Destination, control register, source. -/
  | csr
  /-- Destination, control register, immediate. -/
  | csrImm
  /-- Destination, address register, source. -/
  | amo
  /-- Destination and address register. -/
  | lr
  /-- No operands; all other bits of the word are ignored. -/
  | fence
  /-- No operands; the word is fixed. -/
  | fixed
  deriving DecidableEq, Inhabited

/-- The bits that pick one instruction among those with the same opcode and minor opcode. -/
inductive Selector
  | none
  | funct7 (f7 : BitVec 7)
  | funct7Rs2 (f7 : BitVec 7) (rs2 : BitVec 5)
  | funct5 (f5 : BitVec 5)
  | funct5Rs2 (f5 : BitVec 5) (rs2 : BitVec 5)
  | fmt (format : BitVec 2)
  | exact (word : Word)
  deriving DecidableEq, Inhabited

namespace Selector

/-- Whether the word has the bits of the selector. -/
def accepts (w : Word) : Selector → Bool
  | none => true
  | funct7 f7 => w.funct7 == f7
  | funct7Rs2 f7 rs2 => w.funct7 == f7 && w.rs2 == rs2
  | funct5 f5 => w.funct5 == f5
  | funct5Rs2 f5 rs2 => w.funct5 == f5 && w.rs2 == rs2
  | fmt format => w.fmt == format
  | exact word => w == word

/-- The bits of the selector in their places. -/
def bits : Selector → Word
  | none => 0
  | funct7 f7 => .place 25 f7
  | funct7Rs2 f7 rs2 => .place 25 f7 ||| .place 20 rs2
  | funct5 f5 => .place 27 f5
  | funct5Rs2 f5 rs2 => .place 27 f5 ||| .place 20 rs2
  | fmt format => .place 25 format
  | exact word => word

end Selector

namespace Format

/-- The operands of a word, in the order of the layout. -/
def operands (w : Word) : Format → List Word
  | r | amo | shift => [w.rd.setWidth 32, w.rs1.setWidth 32, w.rs2.setWidth 32]
  | rUnary | lr => [w.rd.setWidth 32, w.rs1.setWidth 32]
  | r4 => [w.rd.setWidth 32, w.rs1.setWidth 32, w.rs2.setWidth 32, w.rs3.setWidth 32]
  | i | load => [w.rd.setWidth 32, w.rs1.setWidth 32, w.immI]
  | s => [w.rs2.setWidth 32, w.rs1.setWidth 32, w.immS]
  | b => [w.rs1.setWidth 32, w.rs2.setWidth 32, w.immB]
  | u => [w.rd.setWidth 32, w.immU]
  | j => [w.rd.setWidth 32, w.immJ]
  | csr | csrImm => [w.rd.setWidth 32, w.csr.setWidth 32, w.rs1.setWidth 32]
  | fence | fixed => []

/-- The low five bits of an operand at `lo`; an absent operand counts as zero. -/
def placeRegister (ops : List Word) (lo index : Nat) : Word :=
  .place lo ((ops.getD index 0).extractLsb' 0 5)

/-- The operands in their places; absent ones count as zero and surplus ones are ignored. -/
def operandBits (ops : List Word) : Format → Word
  | r | amo | shift => placeRegister ops 7 0 ||| placeRegister ops 15 1 ||| placeRegister ops 20 2
  | rUnary | lr => placeRegister ops 7 0 ||| placeRegister ops 15 1
  | r4 =>
    placeRegister ops 7 0 ||| placeRegister ops 15 1 ||| placeRegister ops 20 2
      ||| placeRegister ops 27 3
  | i | load =>
    placeRegister ops 7 0 ||| placeRegister ops 15 1 ||| .placeI (ops.getD 2 0)
  | s => placeRegister ops 20 0 ||| placeRegister ops 15 1 ||| .placeS (ops.getD 2 0)
  | b => placeRegister ops 15 0 ||| placeRegister ops 20 1 ||| .placeB (ops.getD 2 0)
  | u => placeRegister ops 7 0 ||| .placeU (ops.getD 1 0)
  | j => placeRegister ops 7 0 ||| .placeJ (ops.getD 1 0)
  | csr | csrImm =>
    placeRegister ops 7 0 ||| .place 20 ((ops.getD 1 0).extractLsb' 0 12)
      ||| placeRegister ops 15 2
  | fence | fixed => 0

/-- The minor opcode written where a row leaves it open: immediate bits for the upper
immediate and jump formats, otherwise the dynamic rounding mode. -/
def openFunct3 : Format → BitVec 3
  | u | j => 0
  | _ => 7

end Format

/-- A row of the opcode tables. -/
structure Encoding where
  mnemonic : String
  opcode : BitVec 5
  funct3 : Option (BitVec 3)
  selector : Selector
  format : Format
  /-- Bit `i` is set when operand `i` names a floating-point register. -/
  floatMask : Nat := 0
  deriving DecidableEq, Inhabited

namespace Encoding

/-- Whether the word is an instance of the row. -/
def accepts (e : Encoding) (w : Word) : Bool :=
  w.opcode == e.opcode && e.funct3.all (w.funct3 == ·) && e.selector.accepts w

/-- The operands of a word of the row. -/
def operands (e : Encoding) (w : Word) : List Word := e.format.operands w

/-- The word of the row with the given operands. -/
def encode (e : Encoding) (ops : List Word) : Word :=
  match e.selector with
  | .exact word => word
  | selector =>
    3 ||| .place 2 e.opcode ||| .place 12 (e.funct3.getD e.format.openFunct3) ||| selector.bits
      ||| e.format.operandBits ops

end Encoding
end Riscv32
