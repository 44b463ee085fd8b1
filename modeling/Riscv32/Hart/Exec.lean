import Riscv32.Float.Flags
import Riscv32.Hart.State

/-!
# Executing an instruction

An instruction is an action on the hart that may fail. What it did before failing stays done,
so that an instruction which must not have a partial effect has to make its last check before
its first change. Here are the small steps that instructions are made of.
-/
namespace Riscv32

/-- An action on the hart. -/
abbrev Exec := EStateM ExecError Hart

/-- What an instruction does. -/
abbrev Handler := Instruction → Exec Unit

namespace Exec

/-- Fails, or gives the result and leaves the hart alone. -/
def ofExcept {ε α : Type} (wrap : ε → ExecError) : Except ε α → Exec α
  | .ok x => pure x
  | .error e => throw (wrap e)

instance : MonadLift (Except OperandError) Exec := ⟨ofExcept .operand⟩

/-- Raises a trap. -/
def trap {α : Type} (t : Trap) : Exec α := throw (.trap t)

/-- The failure of an instruction that must not be executed. -/
def illegalError (inst : Instruction) : ExecError :=
  .trap (.illegalInstruction (inst.encoding?.getD 0))

/-- Refuses an instruction. -/
def illegal {α : Type} (inst : Instruction) : Exec α := throw (illegalError inst)

/-- Reads an integer register. -/
def readX (i : Nat) : Exec Word := do
  modify fun h => { h with regs := h.regs.markRead i }
  return (← get).regs.peek i

/-- Writes an integer register. -/
def writeX (i : Nat) (v : Word) : Exec Unit :=
  modify fun h => { h with regs := h.regs.write i v }

/-- Reads a floating-point register. -/
def readF (p : Precision) (i : Nat) : Exec (FloatBits p) :=
  return (← get).regs.floats.read p i

/-- Writes a floating-point register. -/
def writeF (p : Precision) (i : Nat) (x : FloatBits p) : Exec Unit :=
  modify fun h => { h with regs := { h.regs with floats := h.regs.floats.write p i x } }

/-- Accrues exception flags. -/
def accrue (flags : FloatFlags) : Exec Unit := modify fun h => h.accrue flags.toWord

/-- Carries out an access to memory. -/
def access {α : Type} (action : Access α) : Exec α := fun h =>
  match action h.memory with
  | .ok x memory => .ok x { h with memory }
  | .error e memory => .error (.memory e) { h with memory }

/-- Reads a number of the given count of bytes. -/
def load (addr : Word) (count : Nat) : Exec Nat := access (AddressSpace.readNat addr count)

/-- Writes the low bytes of a number. -/
def store (addr : Word) (count : Nat) (v : Nat) : Exec Unit :=
  access (AddressSpace.writeNat addr count v)

/-- An immediate operand, in which symbols of the address space may stand. -/
def immediate (inst : Instruction) (index : Nat) : Exec Word := do
  let h ← get
  inst.immediate index h.memory.symbol?

/-- The destination of a branch or jump. -/
def target (inst : Instruction) (index : Nat) : Exec Word := do
  let h ← get
  inst.target index h.instructionPc h.memory.symbol?

/-- Moves the program counter. -/
def jump (target : Word) : Exec Unit := do
  let h ← get
  match h.jump target with
  | .ok h => set h
  | .error t => trap t

/-- Reads a control register. -/
def readCsr (addr : Word) : Exec Word := do
  let h ← get
  ofExcept .csr (h.readCsr addr)

/-- Writes a control register. -/
def writeCsr (addr v : Word) : Exec Unit := do
  let h ← get
  set (← ofExcept .csr (h.writeCsr addr v))

/-- The address of a load or store: base register at position 1, offset at position 2. -/
def effectiveAddress (inst : Instruction) : Exec Word := do
  let base ← readX (← inst.register 1)
  let offset ← immediate inst 2
  return base + offset

end Exec
end Riscv32
