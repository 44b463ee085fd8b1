import Riscv32.Hart.Exec

/-!
# Integer instructions

The base integer instructions and the short forms that programmers write for some of them. The
program counter already points behind the instruction when it is executed, and branches count
from the address of the instruction itself.
-/
namespace Riscv32.Exec

/-- Writes the result of an operation on a register and an immediate. -/
def registerImmediate (op : Word → Word → Word) (inst : Instruction) : Exec Unit := do
  let rd ← inst.register 0
  let x ← readX (← inst.register 1)
  let y ← immediate inst 2
  writeX rd (op x y)

/-- Writes the result of an operation on two registers. -/
def registerRegister (op : Word → Word → Word) (inst : Instruction) : Exec Unit := do
  let rd ← inst.register 0
  let x ← readX (← inst.register 1)
  let y ← readX (← inst.register 2)
  writeX rd (op x y)

/-- Jumps if the two registers satisfy the condition. -/
def branch (taken : Word → Word → Bool) (inst : Instruction) : Exec Unit := do
  let x ← readX (← inst.register 0)
  let y ← readX (← inst.register 1)
  if taken x y then
    jump (← target inst 2)

/-- Jumps if the register satisfies the condition. -/
def branchZero (taken : Word → Bool) (inst : Instruction) : Exec Unit := do
  let x ← readX (← inst.register 0)
  if taken x then
    jump (← target inst 1)

/-- Loads a number of bytes and writes the word that is made of them. -/
def loadInteger (count : Nat) (extend : Nat → Word) (inst : Instruction) : Exec Unit := do
  let rd ← inst.register 0
  let addr ← effectiveAddress inst
  let v ← load addr count
  writeX rd (extend v)

/-- Stores the low bytes of a register. -/
def storeInteger (count : Nat) (inst : Instruction) : Exec Unit := do
  let v ← readX (← inst.register 0)
  let addr ← effectiveAddress inst
  store addr count v.toNat

/-- A byte or halfword extended by its sign. -/
def signed (bits : Nat) (v : Nat) : Word := (BitVec.ofNat bits v).signExtend 32

/-- A number as a word. -/
def unsigned (v : Nat) : Word := BitVec.ofNat 32 v

/-- The signed order as a word. -/
def lessSigned (x y : Word) : Word := .ofBool (x.slt y)

/-- The unsigned order as a word. -/
def lessUnsigned (x y : Word) : Word := .ofBool (x.ult y)

/-- Left shift by the low five bits of the second word. -/
def shiftLeft (x y : Word) : Word := x <<< y.shiftAmount

/-- Right shift that brings in zeros. -/
def shiftRight (x y : Word) : Word := x >>> y.shiftAmount

/-- Right shift that brings in copies of the sign. -/
def shiftRightSigned (x y : Word) : Word := x.sshiftRight y.shiftAmount

/-- Writes the immediate to the upper twenty bits of a register. -/
def loadUpper (inst : Instruction) : Exec Unit := do
  let rd ← inst.register 0
  let imm ← immediate inst 1
  writeX rd (imm <<< 12)

/-- Adds the upper immediate to the address of the instruction. -/
def addUpperToPc (inst : Instruction) : Exec Unit := do
  let rd ← inst.register 0
  let imm ← immediate inst 1
  writeX rd ((← get).instructionPc + imm <<< 12)

/-- Jumps and writes the address behind the instruction. -/
def jumpAndLink (inst : Instruction) : Exec Unit := do
  let rd ← inst.register 0
  let dest ← target inst 1
  let link := (← get).pc
  jump dest
  writeX rd link

/-- Jumps to the sum of a register and an offset, without its lowest bit, and writes the
address behind the instruction. -/
def jumpAndLinkRegister (inst : Instruction) : Exec Unit := do
  let rd ← inst.register 0
  let base ← readX (← inst.register 1)
  let offset ← immediate inst 2
  let link := (← get).pc
  jump (base + offset).clearBitZero
  writeX rd link

/-- Does nothing. -/
def idle (_ : Instruction) : Exec Unit := pure ()

/-- Jumps to the return address. -/
def returnFromCall (_ : Instruction) : Exec Unit := do
  jump (← readX Register.returnAddress).clearBitZero

/-- Copies a register. -/
def move (inst : Instruction) : Exec Unit := do
  let rd ← inst.register 0
  let v ← readX (← inst.register 1)
  writeX rd v

/-- Writes an immediate, or the address of a symbol, to a register. -/
def loadImmediate (inst : Instruction) : Exec Unit := do
  let rd ← inst.register 0
  let v ← immediate inst 1
  writeX rd v

/-- Jumps. -/
def jumpTo (inst : Instruction) : Exec Unit := do
  jump (← target inst 0)

/-- Jumps to the address in a register. -/
def jumpRegister (inst : Instruction) : Exec Unit := do
  jump (← readX (← inst.register 0)).clearBitZero

/-- Jumps and writes the return address. -/
def call (inst : Instruction) : Exec Unit := do
  let dest ← target inst 0
  let link := (← get).instructionPc + 4
  jump dest
  writeX Register.returnAddress link

/-- The integer instructions. -/
def integerHandlers : List (String × Handler) :=
  [("lui", loadUpper),
    ("auipc", addUpperToPc),
    ("jal", jumpAndLink),
    ("jalr", jumpAndLinkRegister),
    ("beq", branch (· == ·)),
    ("bne", branch (· != ·)),
    ("blt", branch BitVec.slt),
    ("bge", branch fun x y => !x.slt y),
    ("bltu", branch BitVec.ult),
    ("bgeu", branch fun x y => !x.ult y),
    ("lb", loadInteger 1 (signed 8)),
    ("lh", loadInteger 2 (signed 16)),
    ("lw", loadInteger 4 unsigned),
    ("lbu", loadInteger 1 unsigned),
    ("lhu", loadInteger 2 unsigned),
    ("sb", storeInteger 1),
    ("sh", storeInteger 2),
    ("sw", storeInteger 4),
    ("addi", registerImmediate (· + ·)),
    ("slti", registerImmediate lessSigned),
    ("sltiu", registerImmediate lessUnsigned),
    ("xori", registerImmediate (· ^^^ ·)),
    ("ori", registerImmediate (· ||| ·)),
    ("andi", registerImmediate (· &&& ·)),
    ("slli", registerImmediate shiftLeft),
    ("srli", registerImmediate shiftRight),
    ("srai", registerImmediate shiftRightSigned),
    ("add", registerRegister (· + ·)),
    ("sub", registerRegister (· - ·)),
    ("sll", registerRegister shiftLeft),
    ("slt", registerRegister lessSigned),
    ("sltu", registerRegister lessUnsigned),
    ("xor", registerRegister (· ^^^ ·)),
    ("srl", registerRegister shiftRight),
    ("sra", registerRegister shiftRightSigned),
    ("or", registerRegister (· ||| ·)),
    ("and", registerRegister (· &&& ·)),
    ("fence", idle),
    ("fence.i", idle),
    ("nop", idle),
    ("ret", returnFromCall),
    ("mv", move),
    ("li", loadImmediate),
    ("la", loadImmediate),
    ("j", jumpTo),
    ("jr", jumpRegister),
    ("call", call),
    ("beqz", branchZero (· == 0)),
    ("bnez", branchZero (· != 0))]

end Riscv32.Exec
