import Riscv32.Hart.Exec

/-!
# Control register and system instructions

A control register is read unless it is only swapped into register 0, and written unless the
source is register 0 or an immediate of zero; every access that is made has to be permitted.
An environment call is a trap on a privileged hart and a call to the host on any other. A
breakpoint does nothing unless a debugger is attached.
-/
namespace Riscv32

namespace Hart

/-- The `mstatus` and privilege changes of returning from a trap, and the jump to `mepc`. A
previous privilege that stands for no mode counts as user mode. -/
def returnFromTrap (h : Hart) : Hart :=
  let previous := h.csrs.mstatusField .mpp
  let csrs := ((h.csrs.setMstatusField .mie (h.csrs.mstatusField .mpie)).setMstatusField
    .mpie 1).setMstatusField .mpp Privilege.user.level
  { h with
    csrs
    privilege := (Privilege.ofLevel? previous).getD .user
    pc := h.csrs.raw Csr.mepc }

end Hart

namespace Exec

/-- Swaps a value into a control register; with register 0 as destination nothing is read. -/
def swapCsr (rd : Nat) (addr v : Word) : Exec Unit := do
  if rd = Register.zero then writeCsr addr v
  else
    let old ← readCsr addr
    writeCsr addr v
    writeX rd old

/-- Reads a control register and, if there is a mask, writes the outcome of an operation on the
old value and the mask. -/
def updateCsr (rd : Nat) (addr : Word) (mask : Option Word) (op : Word → Word → Word) :
    Exec Unit := do
  let old ← readCsr addr
  if let some m := mask then
    writeCsr addr (op old m)
  writeX rd old

/-- The value of the source register, none for register 0. -/
def registerMask (inst : Instruction) : Exec (Option Word) := do
  let rs ← inst.register 2
  if rs = Register.zero then return none else return some (← readX rs)

/-- The low five bits of the immediate. -/
def smallImmediate (inst : Instruction) : Exec Word := do
  return (← immediate inst 2) &&& 0x1F

/-- The low five bits of the immediate, none if they are zero. -/
def immediateMask (inst : Instruction) : Exec (Option Word) := do
  let v ← smallImmediate inst
  return if v = 0 then none else some v

/-- Swaps a register into a control register. -/
def csrSwap (source : Instruction → Exec Word) (inst : Instruction) : Exec Unit := do
  let rd ← inst.register 0
  let addr ← inst.csr 1
  let v ← source inst
  swapCsr rd addr v

/-- Updates a control register. -/
def csrUpdate (source : Instruction → Exec (Option Word)) (op : Word → Word → Word)
    (inst : Instruction) : Exec Unit := do
  let rd ← inst.register 0
  let addr ← inst.csr 1
  let mask ← source inst
  updateCsr rd addr mask op

/-- The value of the source register. -/
def registerSource (inst : Instruction) : Exec Word := do
  readX (← inst.register 2)

/-- The word with the bits of the mask set. -/
def setBits (old mask : Word) : Word := old ||| mask

/-- The word with the bits of the mask cleared. -/
def clearBits (old mask : Word) : Word := old &&& ~~~mask

/-- The control register instructions. -/
def csrHandlers : List (String × Handler) :=
  [("csrrw", csrSwap registerSource),
    ("csrrs", csrUpdate registerMask setBits),
    ("csrrc", csrUpdate registerMask clearBits),
    ("csrrwi", csrSwap smallImmediate),
    ("csrrsi", csrUpdate immediateMask setBits),
    ("csrrci", csrUpdate immediateMask clearBits)]

/-- Hands a system call to the host. -/
def systemCall : Exec Unit := do
  let id ← readX Register.syscallNumber
  let a ← readX Register.argument0
  let b ← readX Register.argument1
  let c ← readX Register.argument2
  let call : Syscall := ⟨id, a, b, c⟩
  let h ← get
  let (outcome, memory) := h.syscallHandler call h.memory
  set { h with memory, syscalls := call :: h.syscalls }
  match ← ofExcept .syscall outcome with
  | .returned v => writeX Register.argument0 v
  | .exited code => modify fun h => h.halt code

/-- The environment call. -/
def environmentCall (_ : Instruction) : Exec Unit := do
  let h ← get
  if !h.privileged then systemCall
  else
    match h.privilege with
    | .user => trap .environmentCallFromUMode
    | .machine => trap .environmentCallFromMMode

/-- The breakpoint. -/
def environmentBreak (_ : Instruction) : Exec Unit := do
  let h ← get
  if h.debugger.isSome then throw .debuggerRequested

/-- The return from a trap, which belongs to machine mode. -/
def machineReturn (inst : Instruction) : Exec Unit := do
  let h ← get
  if h.privilege = .machine then set h.returnFromTrap else illegal inst

/-- An instruction that is known but has no behaviour. -/
def unimplemented (inst : Instruction) : Exec Unit := throw (.unimplemented inst.mnemonic)

/-- The wait for interrupts, which only a privileged hart takes. -/
def waitForInterrupt (_ : Instruction) : Exec Unit :=
  modify fun h => { h with waiting := h.privileged }

/-- The system instructions. -/
def systemHandlers : List (String × Handler) :=
  [("ecall", environmentCall),
    ("ebreak", environmentBreak),
    ("mret", machineReturn),
    ("sret", unimplemented),
    ("uret", unimplemented),
    ("wfi", waitForInterrupt)]

end Exec
end Riscv32
