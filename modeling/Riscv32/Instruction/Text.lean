import Riscv32.Instruction.Operand

/-!
# The text of instructions

A decoded word is written in the assembly layout of its format, with calling-convention names
for registers and names for the control registers that have one. A structured instruction is
written as its tokens stand. A word that does not decode is written as data.
-/
namespace Riscv32

open Numeral

namespace Decoded

/-- The operand at a position, zero if there is none. -/
def operand (d : Decoded) (i : Nat) : Word := d.operands.getD i 0

/-- The name of the register at a position. -/
def registerText (d : Decoded) (i : Nat) : String :=
  if d.floatMask.testBit i then Register.floatName (d.operand i).toNat
  else Register.integerName (d.operand i).toNat

/-- The name or the number of the control register at a position. -/
def csrText (d : Decoded) (i : Nat) : String :=
  (Csr.name? (d.operand i)).getD (hexPadded 3 (d.operand i).toNat)

/-- The immediate at a position, as a signed decimal number. -/
def immediateText (d : Decoded) (i : Nat) : String := toString (d.operand i).toInt

/-- The upper immediate at a position, as twenty bits in hexadecimal. -/
def upperText (d : Decoded) (i : Nat) : String := hex ((d.operand i).extractLsb' 0 20).toNat

/-- The operands in the layout of the format. -/
def operandText (d : Decoded) : List String :=
  match d.format with
  | .r => [d.registerText 0, d.registerText 1, d.registerText 2]
  | .rUnary => [d.registerText 0, d.registerText 1]
  | .r4 => [d.registerText 0, d.registerText 1, d.registerText 2, d.registerText 3]
  | .i | .shift | .b => [d.registerText 0, d.registerText 1, d.immediateText 2]
  | .load | .s => [d.registerText 0, s!"{d.immediateText 2}({d.registerText 1})"]
  | .u => [d.registerText 0, d.upperText 1]
  | .j => [d.registerText 0, d.immediateText 1]
  | .csr => [d.registerText 0, d.csrText 1, d.registerText 2]
  | .csrImm => [d.registerText 0, d.csrText 1, d.immediateText 2]
  | .amo => [d.registerText 0, d.registerText 2, s!"({d.registerText 1})"]
  | .lr => [d.registerText 0, s!"({d.registerText 1})"]
  | .fence | .fixed => []

end Decoded

namespace Instruction

/-- A mnemonic and its operands, separated by commas. -/
def layout (mnemonic : String) (operands : List String) : String :=
  if operands.isEmpty then mnemonic
  else mnemonic ++ " " ++ String.intercalate ", " operands

/-- The text of an instruction. -/
def text : Instruction → String
  | structured m ops => layout m ops
  | raw d => layout d.mnemonic d.operandText

end Instruction

/-- The text of a word, as an instruction if it is one. -/
def disassemble (w : Word) : String :=
  match decode w with
  | .ok d => (Instruction.raw d).text
  | .error _ => s!".word {hexWord w}"

end Riscv32
