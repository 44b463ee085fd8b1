import Riscv32.Text.Numeral

/-!
# Traps

A trap is a synchronous exception or an interrupt. Its cause is written as
`code * 2 + interrupt`, and an exception that concerns an address, an encoding or a program
counter carries that word as its value.
-/
namespace Riscv32

open Numeral

/-- The three ways of touching memory. -/
inductive AccessKind
  | fetch
  | read
  | write
  deriving DecidableEq, Inhabited

/-- The name of the access in messages. -/
def AccessKind.name : AccessKind → String
  | fetch => "fetch"
  | read => "read"
  | write => "write"

/-- The exceptions and interrupts of a hart with user and machine mode. -/
inductive Trap
  | instructionAddressMisaligned (addr : Word)
  | instructionAccessFault (addr : Word)
  | illegalInstruction (encoding : Word)
  | breakpoint (pc : Word)
  | loadAddressMisaligned (addr : Word)
  | loadAccessFault (addr : Word)
  | storeAddressMisaligned (addr : Word)
  | storeAccessFault (addr : Word)
  | environmentCallFromUMode
  | environmentCallFromMMode
  | userSoftwareInterrupt
  | machineSoftwareInterrupt
  | userTimerInterrupt
  | machineTimerInterrupt
  | userExternalInterrupt
  | machineExternalInterrupt
  deriving DecidableEq, Inhabited

namespace Trap

/-- The cause code, which exceptions and interrupts number separately. -/
def code : Trap → Nat
  | instructionAddressMisaligned _ => 0
  | instructionAccessFault _ => 1
  | illegalInstruction _ => 2
  | breakpoint _ => 3
  | loadAddressMisaligned _ => 4
  | loadAccessFault _ => 5
  | storeAddressMisaligned _ => 6
  | storeAccessFault _ => 7
  | environmentCallFromUMode => 8
  | environmentCallFromMMode => 11
  | userSoftwareInterrupt => 0
  | machineSoftwareInterrupt => 3
  | userTimerInterrupt => 4
  | machineTimerInterrupt => 7
  | userExternalInterrupt => 8
  | machineExternalInterrupt => 11

/-- Whether the trap arrives from outside the instruction stream. -/
def isInterrupt : Trap → Bool
  | userSoftwareInterrupt | machineSoftwareInterrupt | userTimerInterrupt
  | machineTimerInterrupt | userExternalInterrupt | machineExternalInterrupt => true
  | _ => false

/-- The word an exception carries, if it carries one. -/
def value? : Trap → Option Word
  | instructionAddressMisaligned v | instructionAccessFault v | illegalInstruction v
  | breakpoint v | loadAddressMisaligned v | loadAccessFault v | storeAddressMisaligned v
  | storeAccessFault v => some v
  | _ => none

/-- The word written to `mtval` on delivery, zero for a trap without a value. -/
def tval (t : Trap) : Word := t.value?.getD 0

/-- The word written to `mcause` on delivery: twice the code, plus one for an interrupt. -/
def mcause (t : Trap) : Word :=
  BitVec.ofNat 32 (2 * t.code + t.isInterrupt.toNat)

/-- The fault that a refused access raises. -/
def accessFault : AccessKind → Word → Trap
  | .fetch, addr => instructionAccessFault addr
  | .read, addr => loadAccessFault addr
  | .write, addr => storeAccessFault addr

/-- The name of the trap. -/
def name : Trap → String
  | instructionAddressMisaligned _ => "InstructionAddressMisaligned"
  | instructionAccessFault _ => "InstructionAccessFault"
  | illegalInstruction _ => "IllegalInstruction"
  | breakpoint _ => "Breakpoint"
  | loadAddressMisaligned _ => "LoadAddressMisaligned"
  | loadAccessFault _ => "LoadAccessFault"
  | storeAddressMisaligned _ => "StoreAddressMisaligned"
  | storeAccessFault _ => "StoreAccessFault"
  | environmentCallFromUMode => "EnvironmentCallFromUMode"
  | environmentCallFromMMode => "EnvironmentCallFromMMode"
  | userSoftwareInterrupt => "UserSoftwareInterrupt"
  | machineSoftwareInterrupt => "MachineSoftwareInterrupt"
  | userTimerInterrupt => "UserTimerInterrupt"
  | machineTimerInterrupt => "MachineTimerInterrupt"
  | userExternalInterrupt => "UserExternalInterrupt"
  | machineExternalInterrupt => "MachineExternalInterrupt"

/-- The name, followed by the value in parentheses where the trap carries one. -/
def message (t : Trap) : String :=
  match t.value? with
  | some v => s!"{t.name}({hex v.toNat})"
  | none => t.name

/-- An interrupt carries no value. -/
theorem value?_eq_none_of_isInterrupt {t : Trap} (h : t.isInterrupt = true) :
    t.value? = none := by
  cases t <;> simp_all [isInterrupt, value?]

end Trap
end Riscv32
