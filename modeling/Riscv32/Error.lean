import Riscv32.Privilege
import Riscv32.Trap

/-!
# Failures

What can go wrong, one inductive type for each part of the machine, and the text that each
failure is reported with. `ExecError` gathers what an instruction can fail with; its
`trap?` is the architectural trap that a privileged hart raises for it. `HartError` is what
a whole step reports to the host.
-/
namespace Riscv32

open Numeral

/-- A word that is no instruction. -/
inductive DecodeError
  | illegalInstruction (word : Word)
  deriving DecidableEq

namespace DecodeError

/-- The text of the failure. -/
def message : DecodeError → String
  | illegalInstruction word => s!"illegal instruction {hexWord word}"

/-- The trap of the failure. -/
def trap : DecodeError → Trap
  | illegalInstruction word => .illegalInstruction word

end DecodeError

/-- A refused access to memory or a request for space that cannot be met. -/
inductive MemoryError
  | outOfBounds (addr : Word) (size : Nat) (access : AccessKind)
  | readOnly (addr : Word) (size : Nat) (owner : String)
  | notExecutable (addr : Word) (owner : String)
  | misalignedFetch (addr : Word)
  | rawAccessToInstructions (addr : Word) (access : AccessKind) (owner : String)
  | outOfMemory (name : String) (size : Nat)
  | decode (cause : DecodeError)
  deriving DecidableEq

namespace MemoryError

/-- The text of the failure. -/
def message : MemoryError → String
  | outOfBounds addr size access =>
    s!"{access.name} of {size} byte(s) at {hexWord addr} is out of bounds"
  | readOnly addr size owner =>
    s!"write of {size} byte(s) at {hexWord addr} hits read-only section `{owner}`"
  | notExecutable addr owner =>
    s!"fetch at {hexWord addr} from non-executable section `{owner}`"
  | misalignedFetch addr => s!"misaligned instruction fetch at {hexWord addr}"
  | rawAccessToInstructions addr access owner =>
    s!"raw {access.name} at {hexWord addr} in instruction section `{owner}`"
  | outOfMemory name size => s!"no free region of {size} byte(s) for section `{name}`"
  | decode cause => cause.message

/-- The trap of the failure; a request for space counts as a store to address zero. -/
def trap : MemoryError → Trap
  | outOfBounds addr _ access => .accessFault access addr
  | readOnly addr _ _ => .storeAccessFault addr
  | notExecutable addr _ => .instructionAccessFault addr
  | misalignedFetch addr => .instructionAddressMisaligned addr
  | rawAccessToInstructions addr access _ => .accessFault access addr
  | outOfMemory _ _ => .storeAccessFault 0
  | decode cause => cause.trap

end MemoryError

/-- A refused access to a control register. -/
inductive CsrError
  | insufficientPrivilege (addr : Word) (mode : Privilege)
  | readOnly (addr : Word)
  deriving DecidableEq

namespace CsrError

/-- The text of the failure. -/
def message : CsrError → String
  | insufficientPrivilege addr mode =>
    s!"csr {hexPadded 3 addr.toNat} is not accessible from {mode.name} mode"
  | readOnly addr => s!"csr {hexPadded 3 addr.toNat} is read-only"

/-- The trap of the failure, which carries the address of the control register. -/
def trap : CsrError → Trap
  | insufficientPrivilege addr _ => .instructionAccessFault addr
  | readOnly addr => .instructionAccessFault addr

end CsrError

/-- A name that is no register. -/
inductive RegisterError
  | unknown (name : String)
  deriving DecidableEq

/-- The text of the failure. -/
def RegisterError.message : RegisterError → String
  | unknown name => s!"unknown register `{name}`"

/-- An operand that is absent or of the wrong kind. -/
inductive OperandError
  | missing (mnemonic : String) (index : Nat)
  | notARegister (token : String)
  | notAFloatRegister (token : String)
  | notAnImmediate (token : String)
  | notACsr (token : String)
  deriving DecidableEq

/-- The text of the failure. -/
def OperandError.message : OperandError → String
  | missing mnemonic index => s!"`{mnemonic}` is missing operand {index}"
  | notARegister token => s!"`{token}` is not an integer register"
  | notAFloatRegister token => s!"`{token}` is not a floating-point register"
  | notAnImmediate token => s!"`{token}` is neither a symbol nor a number"
  | notACsr token => s!"`{token}` is not a csr"

/-- A system call that the host does not know or could not complete. -/
inductive SyscallError
  | unknown (id : Word)
  | failed (id : Word) (reason : String)
  deriving DecidableEq

/-- The text of the failure. -/
def SyscallError.message : SyscallError → String
  | unknown id => s!"unknown syscall {id.toNat}"
  | failed id reason => s!"syscall {id.toNat} failed: {reason}"

/-- What the execution of an instruction can fail with. -/
inductive ExecError
  | trap (cause : Trap)
  | memory (cause : MemoryError)
  | decode (cause : DecodeError)
  | csr (cause : CsrError)
  | register (cause : RegisterError)
  | operand (cause : OperandError)
  | syscall (cause : SyscallError)
  | unimplemented (mnemonic : String)
  | debuggerRequested
  deriving DecidableEq

namespace ExecError

/-- The text of the failure. -/
def message : ExecError → String
  | trap cause => s!"trap: {cause.message}"
  | memory cause => cause.message
  | decode cause => cause.message
  | csr cause => cause.message
  | register cause => cause.message
  | operand cause => cause.message
  | syscall cause => cause.message
  | unimplemented mnemonic => s!"unimplemented instruction `{mnemonic}`"
  | debuggerRequested => "debugger launch requested"

/-- The trap of the failure. Operand and register failures are illegal instructions with the
given encoding; system calls, missing behaviour and debugger requests have no trap. -/
def trap? (encoding : Word) : ExecError → Option Trap
  | trap cause => some cause
  | memory cause => some cause.trap
  | decode cause => some cause.trap
  | csr cause => some cause.trap
  | register _ | operand _ => some (.illegalInstruction encoding)
  | syscall _ | unimplemented _ | debuggerRequested => none

end ExecError

/-- What an unprivileged hart leaves behind when a failure halts it. -/
structure FaultReport where
  pc : Word
  instruction : String
  error : ExecError
  deriving DecidableEq

/-- The failure, the address of the instruction and its text. -/
def FaultReport.message (r : FaultReport) : String :=
  s!"{r.error.message} at pc {hexWord r.pc} [{r.instruction}]"

/-- What a step, a run or the preparation of a hart reports to the host. -/
inductive HartError
  | fault (report : FaultReport)
  | unimplemented (mnemonic : String) (pc : Word)
  | debuggerRequested (pc : Word)
  | unknownMnemonic (mnemonic : String) (pc : Word)
  | duplicateMnemonic (mnemonic first second : String)
  | launchFailed (cause : MemoryError)
  | cycleLimit (limit : Counter) (pc : Word)
  deriving DecidableEq

/-- The text of the failure. -/
def HartError.message : HartError → String
  | fault report => report.message
  | unimplemented mnemonic pc => s!"unimplemented instruction `{mnemonic}` at {hexWord pc}"
  | debuggerRequested pc => s!"debugger launch requested at {hexWord pc}"
  | unknownMnemonic mnemonic pc => s!"no handler registered for `{mnemonic}` at {hexWord pc}"
  | duplicateMnemonic mnemonic first second =>
    s!"mnemonic `{mnemonic}` registered by both `{first}` and `{second}`"
  | launchFailed cause => s!"failed to launch hart: {cause.message}"
  | cycleLimit limit pc => s!"cycle limit of {limit.toNat} reached at {hexWord pc}"

/-- A program that cannot be built or placed as asked. -/
inductive PlacementError
  | overlap (name : String) (base : Word) (size : Nat) (other : String)
  | relocation (program : String) (fixed requested : Word)
  | duplicateGlobal (name : String)
  | addressOverflow (name : String)
  deriving DecidableEq

/-- The text of the failure. -/
def PlacementError.message : PlacementError → String
  | overlap name base size other =>
    s!"section `{name}` at {hexWord base} (+{hex size}) overlaps `{other}`"
  | relocation program fixed requested =>
    s!"program `{program}` is fixed at {hexWord fixed} and cannot move to {hexWord requested}"
  | duplicateGlobal name => s!"global symbol `{name}` is exported twice"
  | addressOverflow name => s!"section `{name}` does not fit in the 32-bit address space"

end Riscv32
