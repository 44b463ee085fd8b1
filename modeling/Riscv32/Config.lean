import Riscv32.Float.Precision
import Riscv32.Word

/-!
# Configuration

The settings of a hart with their defaults, and the conditions that they have to meet.
-/
namespace Riscv32

/-- How the hart executes. -/
structure GeneralConfig where
  /-- A machine-mode hart: failures become traps and memory is mapped on demand. -/
  privileged : Bool := false
  /-- The host wants every instruction reported. -/
  traceInstructions : Bool := false
  /-- A run ends after this many cycles. -/
  maxCycles : Option Counter := none
  deriving DecidableEq

/-- The register file. -/
structure RegisterConfig where
  precision : Precision := .double
  unlimited : Bool := false
  deriving DecidableEq

/-- The address space. -/
structure MemoryConfig where
  /-- The size of the stack of an unprivileged hart; zero gives it none. -/
  stackSize : Word := 0x80000
  loadAlignment : Word := 0x1000
  deriving DecidableEq

/-- The identity of the hart. -/
structure IdentityConfig where
  hartId : Word := 0
  deriving DecidableEq

/-- The clock. -/
structure ClockConfig where
  tickRateHz : Counter := 1000000
  deriving DecidableEq

/-- All settings. -/
structure Config where
  general : GeneralConfig := {}
  registers : RegisterConfig := {}
  memory : MemoryConfig := {}
  identity : IdentityConfig := {}
  clock : ClockConfig := {}
  deriving DecidableEq

/-- A text that is no configuration, or a configuration with a value that cannot be honoured. -/
inductive ConfigError
  | malformed
  | zeroTickRate
  | alignmentNotPowerOfTwo (alignment : Word)
  | unalignedStack (size : Word)
  deriving DecidableEq

/-- The text of the failure; a malformed text has none of its own. -/
def ConfigError.message : ConfigError → String
  | malformed => "invalid configuration"
  | zeroTickRate => "invalid value for `clock.tick_rate_hz`: must be non-zero"
  | alignmentNotPowerOfTwo a =>
    s!"invalid value for `memory.load_alignment`: {a.toNat} is not a power of two"
  | unalignedStack size =>
    s!"invalid value for `memory.stack_size`: {size.toNat} is not a multiple of 16"

/-- The precision of registers of the given width, or the text that refuses the width. -/
def Precision.ofWidth (bits : Nat) : Except String Precision :=
  if bits = 32 then .ok .single
  else if bits = 64 then .ok .double
  else .error s!"flen must be 32 or 64, got {bits}"

namespace Config

/-- Whether the word is zero or a power of two. -/
def isAlignment (w : Word) : Bool := w &&& (w - 1) == 0

/-- Checks the settings, in this order: tick rate, load alignment, stack size. -/
def validate (c : Config) : Except ConfigError Unit :=
  if c.clock.tickRateHz = 0 then .error .zeroTickRate
  else if !isAlignment c.memory.loadAlignment then
    .error (.alignmentNotPowerOfTwo c.memory.loadAlignment)
  else if c.memory.stackSize.toNat % 16 ≠ 0 then .error (.unalignedStack c.memory.stackSize)
  else .ok ()

end Config
end Riscv32
