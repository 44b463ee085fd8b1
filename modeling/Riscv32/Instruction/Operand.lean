import Riscv32.Csr.Address
import Riscv32.Instruction.Decode
import Riscv32.Instruction.Literal
import Riscv32.Register.Name

/-!
# Instructions and their operands

An instruction is either a decoded word, whose operands are numbers, or a mnemonic with operand
tokens as a programmer writes them. Both give their operands by position and kind, so that
nothing beyond this module needs to know where an instruction came from. A token that names a
symbol stands for the address of the symbol, and only otherwise for the number it spells.
-/
namespace Riscv32

/-- Addresses of names. -/
abbrev Symbols := String → Option Word

/-- An instruction ready to be executed. -/
inductive Instruction
  | structured (mnemonic : String) (operands : List String)
  | raw (decoded : Decoded)
  deriving DecidableEq

namespace Instruction

/-- The mnemonic. -/
def mnemonic : Instruction → String
  | structured m _ => m
  | raw d => d.mnemonic

/-- The count of operands. -/
def operandCount : Instruction → Nat
  | structured _ ops => ops.length
  | raw d => d.operands.length

/-- The word the instruction was decoded from. -/
def encoding? : Instruction → Option Word
  | structured _ _ => none
  | raw d => some d.encoding

/-- The operand at a position, or the failure that it is missing. -/
def operandAt {α : Type} (mnemonic : String) (ops : List α) (index : Nat) :
    Except OperandError α :=
  match ops[index]? with
  | some x => .ok x
  | none => .error (.missing mnemonic index)

/-- The result, or the failure if there is none. -/
def require {α : Type} (e : OperandError) : Option α → Except OperandError α
  | some x => .ok x
  | none => .error e

/-- The index of a register field. -/
def fieldIndex? (v : Word) : Option Nat :=
  if v.toNat < Register.count then some v.toNat else none

/-- An integer register operand. -/
def register (inst : Instruction) (index : Nat) : Except OperandError Nat :=
  match inst with
  | structured m ops => do
    let token ← operandAt m ops index
    require (.notARegister token) (Register.integerIndex? token)
  | raw d => do
    let v ← operandAt d.mnemonic d.operands index
    require (.notARegister (toString v.toInt)) (fieldIndex? v)

/-- A floating-point register operand. -/
def floatRegister (inst : Instruction) (index : Nat) : Except OperandError Nat :=
  match inst with
  | structured m ops => do
    let token ← operandAt m ops index
    require (.notAFloatRegister token) (Register.floatIndex? token)
  | raw d => do
    let v ← operandAt d.mnemonic d.operands index
    require (.notAFloatRegister (toString v.toInt)) (fieldIndex? v)

/-- An immediate operand: a symbol's address or a number. -/
def immediate (inst : Instruction) (index : Nat) (symbols : Symbols) :
    Except OperandError Word :=
  match inst with
  | structured m ops => do
    let token ← operandAt m ops index
    require (.notAnImmediate token) ((symbols token).or (Literal.word? token))
  | raw d => operandAt d.mnemonic d.operands index

/-- The destination of a branch or jump: a symbol's address, or a number counted from `pc`,
the address of the instruction. -/
def target (inst : Instruction) (index : Nat) (pc : Word) (symbols : Symbols) :
    Except OperandError Word :=
  match inst with
  | structured m ops => do
    let token ← operandAt m ops index
    require (.notAnImmediate token)
      ((symbols token).or ((Literal.word? token).map (pc + ·)))
  | raw d => do return pc + (← operandAt d.mnemonic d.operands index)

/-- The control register of a token: its name, or the low twelve bits of a number. -/
def csrOfToken? (token : String) : Option Word :=
  (Csr.address? token).or ((Literal.word? token).map (· &&& 0xFFF))

/-- A control register operand, by name or by number. -/
def csr (inst : Instruction) (index : Nat) : Except OperandError Word :=
  match inst with
  | structured m ops => do
    let token ← operandAt m ops index
    require (.notACsr token) (csrOfToken? token)
  | raw d => do return (← operandAt d.mnemonic d.operands index) &&& 0xFFF

/-- The rounding-mode field: of a decoded word its minor opcode, otherwise the mode named at
the position, and the dynamic mode if nothing stands there. -/
def roundingMode (inst : Instruction) (index : Nat) : Except OperandError (BitVec 3) :=
  match inst with
  | structured _ ops =>
    match ops[index]? with
    | none => .ok Literal.dynamicRounding
    | some token => require (.notAnImmediate token) (Literal.roundingMode? token)
  | raw d => .ok d.encoding.funct3

end Instruction
end Riscv32
