import Riscv32.Clock
import Riscv32.Config
import Riscv32.Csr.Store
import Riscv32.Memory.Placement
import Riscv32.Register.File
import Riscv32.Trap.Queue

/-!
# The state of a hart

A hart is one hardware thread: registers, control registers, memory, privilege, counters, the
traps it has yet to take, and its connections to the host. The host serves the system calls of
an unprivileged hart through a function, and the hart keeps a record of the calls it made. The
arithmetic of the host gives NaNs of its choice, in every cycle another one if it likes. Of a
debugger the hart knows only a handle.
-/
namespace Riscv32

/-- A system call: its number and three arguments. -/
structure Syscall where
  id : Word
  args : Word × Word × Word
  deriving DecidableEq

/-- What follows a system call. -/
inductive SyscallOutcome
  /-- The call gave a result, and the hart goes on. -/
  | returned (value : Word)
  /-- The hart halts with an exit code. -/
  | exited (code : Word)
  deriving DecidableEq

/-- The host's answer to a system call, and the memory it leaves. -/
abbrev SyscallHandler :=
  Syscall → AddressSpace → Except SyscallError SyscallOutcome × AddressSpace

namespace SyscallHandler

/-- The number of the call that ends a program. -/
def exitId : Word := 93

/-- The handler that knows only the call that ends a program. -/
def basic : SyscallHandler := fun call m =>
  (if call.id = exitId then .ok (.exited call.args.1) else .error (.unknown call.id), m)

end SyscallHandler

/-- What the host calls a debugger by. -/
structure DebuggerHandle where
  id : Nat
  deriving DecidableEq

/-- A hardware thread. -/
structure Hart where
  regs : RegisterFile := {}
  /-- The address of the next instruction. -/
  pc : Word := 0
  /-- The address of the instruction in execution. -/
  instructionPc : Word := 0
  csrs : Csr.Store := .initial
  privilege : Privilege := .user
  memory : AddressSpace := {}
  /-- The steps made, including those spent waiting. -/
  cycle : Counter := 0
  /-- The instructions completed. -/
  instret : Counter := 0
  halted : Bool := false
  exitCode : Option Word := none
  /-- Whether the hart waits for an interrupt. -/
  waiting : Bool := false
  /-- The address of a load reservation. -/
  reservation : Option Word := none
  traps : TrapQueue := {}
  clock : Clock := {}
  timer : Timer := {}
  /-- Whether failures become traps instead of halting the hart. -/
  privileged : Bool := false
  hartId : Word := 0
  maxCycles : Option Counter := none
  stackSize : Word := 0
  /-- Whether the host wants every instruction reported. -/
  traced : Bool := false
  syscallHandler : SyscallHandler := .basic
  /-- The system calls made, the latest first. -/
  syscalls : List Syscall := []
  /-- The NaNs that the arithmetic of the host gives, by cycle. No instruction changes them. -/
  nans : Counter → (p : Precision) → FloatBits.NaN p := fun _ => .canonical
  debugger : Option DebuggerHandle := none

namespace Hart

/-- A hart as it leaves reset. -/
def ofConfig (c : Config) : Hart :=
  { regs := .ofPrecision c.registers.precision c.registers.unlimited
    privilege := if c.general.privileged then .machine else .user
    memory := .empty c.general.privileged c.memory.loadAlignment.toNat
    privileged := c.general.privileged
    hartId := c.identity.hartId
    maxCycles := c.general.maxCycles
    stackSize := c.memory.stackSize
    traced := c.general.traceInstructions }

/-- The counters that control registers show. -/
def counters (h : Hart) : Csr.Counters := ⟨h.cycle, h.instret, h.clock.now, h.hartId⟩

/-- Stops the hart with an exit code. -/
def halt (h : Hart) (code : Word) : Hart := { h with halted := true, exitCode := some code }

/-- Takes the exit code out of the hart. -/
def takeExit (h : Hart) : Option Word × Hart := (h.exitCode, { h with exitCode := none })

/-- Queues a trap for delivery to machine mode. -/
def raise (h : Hart) (t : Trap) : Hart := { h with traps := h.traps.push (.machine t) }

/-- Holds a reservation on an address. -/
def reserve (h : Hart) (addr : Word) : Hart := { h with reservation := some addr }

/-- Gives up the reservation and tells whether it was held on the address. -/
def takeReservation (h : Hart) (addr : Word) : Bool × Hart :=
  (h.reservation == some addr, { h with reservation := none })

/-- Adds the exception flags in the low bits of a word to those accrued in `fcsr`. -/
def accrue (h : Hart) (flags : Word) : Hart :=
  if flags = 0 then h
  else
    let added := flags &&& BitField.floatFlags.mask
    { h with csrs := h.csrs.setRaw Csr.fcsr (h.csrs.raw Csr.fcsr ||| added) }

/-- The rounding mode held in `fcsr`. -/
def dynamicRounding (h : Hart) : Word := BitField.roundingMode.get (h.csrs.raw Csr.fcsr)

/-- Reads a control register with the privilege of the hart. -/
def readCsr (h : Hart) (addr : Word) : Except CsrError Word := do
  Csr.checkAccess addr h.privilege false
  return h.csrs.get addr h.counters

/-- Carries out what a write to a control register asks for. Arming the timer withdraws the
timer bit of `mip`. -/
def apply (h : Hart) : Csr.Effect → Hart
  | .none => h
  | .halt code => h.halt code
  | .armTimer compare =>
    { h with
      csrs := h.csrs.setRaw Csr.mip (h.csrs.raw Csr.mip &&& ~~~Csr.timerPending)
      timer := h.timer.arm compare }

/-- Writes a control register with the privilege of the hart. -/
def writeCsr (h : Hart) (addr v : Word) : Except CsrError Hart := do
  Csr.checkAccess addr h.privilege true
  let (effect, csrs) := h.csrs.set addr v
  return { h with csrs }.apply effect

/-- Moves the program counter to a multiple of four. -/
def jump (h : Hart) (target : Word) : Except Trap Hart :=
  if target.isAligned then .ok { h with pc := target }
  else .error (.instructionAddressMisaligned target)

/-- The name of the section allocated as a stack. -/
def stackName : String := ".stack"

/-- Gives an unprivileged hart a stack, unless it has one or is to have none. -/
def withStack (h : Hart) : Except MemoryError Hart :=
  if h.stackSize = 0 ∨ (h.memory.sectionNamed? stackName).isSome then .ok h
  else
    match h.memory.allocate stackName h.stackSize.toNat .data with
    | .error e => .error e
    | .ok (base, memory) =>
      .ok { h with memory, regs := h.regs.write Register.stackPointer (base + h.stackSize) }

/-- Prepares a hart to run from `entry`, or else from the entry point of its memory. An
unprivileged hart gets a stack and finds its number in the first argument register. The
program counter moves even if the stack cannot be placed. -/
def launch (h : Hart) (entry : Option Word) : Except MemoryError Unit × Hart :=
  let h := { h with pc := (entry.or h.memory.entryPoint?).getD 0 }
  if h.privileged then (.ok (), h)
  else
    match h.withStack with
    | .error e => (.error e, h)
    | .ok h => (.ok (), { h with regs := h.regs.write Register.argument0 h.hartId })

/-- The name of a truth value. -/
def boolText (b : Bool) : String := if b then "true" else "false"

/-- A line that sums up the state. -/
def summary (h : Hart) : String :=
  let exit := match h.exitCode with
    | none => "None"
    | some code => s!"Some({code.toNat})"
  s!"Cpu \x7b hart_id: {h.hartId.toNat}, pc: {Numeral.hexWord h.pc}, "
    ++ s!"privilege: {h.privilege.name}, privileged: {boolText h.privileged}, "
    ++ s!"cycle: {h.cycle.toNat}, instret: {h.instret.toNat}, halted: {boolText h.halted}, "
    ++ s!"exit_code: {exit}, pending_traps: {h.traps.size}, "
    ++ s!"debugger: {boolText h.debugger.isSome}, .. \x7d"

/-- The program counter, the privilege and the registers. -/
def text (h : Hart) : String :=
  s!"pc = {Numeral.hexWord h.pc} ({h.memory.addressText h.pc}) priv = {h.privilege.name}\n"
    ++ h.regs.text

end Hart
end Riscv32
