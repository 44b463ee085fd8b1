import Riscv32.Config
import Riscv32.Config.Document

/-!
# Reading a configuration

A group of settings is written as an object, in which unknown keys are skipped and no known key
may stand twice, or as an array of its values in order. What is not given keeps its default.
-/
namespace Riscv32

/-- A value of the expected type in a document. -/
abbrev Document.Reader (α : Type) := Document → Option α

namespace Document

/-- A truth value. -/
def readBool : Reader Bool
  | bool b => some b
  | _ => none

/-- A whole number below `1 <<< bits`. -/
def readNat (bits : Nat) : Reader Nat
  | number (some n) => if n < 1 <<< bits then some n else none
  | _ => none

/-- A word. -/
def readWord : Reader Word := fun d => (readNat 32 d).map (BitVec.ofNat 32)

/-- A counter. -/
def readCounter : Reader Counter := fun d => (readNat 64 d).map (BitVec.ofNat 64)

/-- A counter, or nothing. -/
def readOptionalCounter : Reader (Option Counter)
  | null => some none
  | d => (readCounter d).map some

/-- The width of floating-point registers. -/
def readPrecision : Reader Precision := fun d => do
  match Precision.ofWidth (← readNat 32 d) with
  | .ok p => some p
  | .error _ => none

/-- Settings of type `α`: the keys in order, each with the way its value is taken over. -/
abbrev Settings (α : Type) := List (String × (Document → α → Option α))

/-- A setting with the given key, reader and place in the group. -/
def setting {α β : Type} (key : String) (read : Reader β) (store : α → β → α) :
    String × (Document → α → Option α) :=
  (key, fun d group => (read d).map (store group))

/-- Takes over the fields of an object; `seen` holds the known keys met so far. -/
def readFields {α : Type} (settings : Settings α) :
    List String → List (Option String × Document) → α → Option α
  | _, [], group => some group
  | _, (none, _) :: _, _ => none
  | seen, (some key, d) :: rest, group =>
    match settings.lookup key with
    | none => readFields settings seen rest group
    | some take =>
      if key ∈ seen then none
      else (take d group).bind (readFields settings (key :: seen) rest)

/-- Takes over the items of an array, of which there may not be more than settings. -/
def readItems {α : Type} : Settings α → List Document → α → Option α
  | _, [], group => some group
  | [], _ :: _, _ => none
  | (_, take) :: settings, d :: rest, group => (take d group).bind (readItems settings rest)

/-- A group of settings, with defaults for those that are not given. -/
def readGroup {α : Type} (settings : Settings α) (defaults : α) : Reader α
  | object fields => readFields settings [] fields defaults
  | array items => readItems settings items defaults
  | _ => none

end Document

namespace Config

open Document

/-- The settings on execution. -/
def readGeneral : Reader GeneralConfig :=
  readGroup
    [setting "privileged" readBool fun g v => { g with privileged := v },
      setting "trace_instructions" readBool fun g v => { g with traceInstructions := v },
      setting "max_cycles" readOptionalCounter fun g v => { g with maxCycles := v }] {}

/-- The settings on registers. -/
def readRegisters : Reader RegisterConfig :=
  readGroup
    [setting "flen" readPrecision fun g v => { g with precision := v },
      setting "unlimited_registers" readBool fun g v => { g with unlimited := v }] {}

/-- The settings on memory. -/
def readMemory : Reader MemoryConfig :=
  readGroup
    [setting "stack_size" readWord fun g v => { g with stackSize := v },
      setting "load_alignment" readWord fun g v => { g with loadAlignment := v }] {}

/-- The settings on identity. -/
def readIdentity : Reader IdentityConfig :=
  readGroup [setting "hart_id" readWord fun g v => { g with hartId := v }] {}

/-- The settings on the clock. -/
def readClock : Reader ClockConfig :=
  readGroup [setting "tick_rate_hz" readCounter fun g v => { g with tickRateHz := v }] {}

/-- All settings. -/
def readAll : Reader Config :=
  readGroup
    [setting "general" readGeneral fun g v => { g with general := v },
      setting "registers" readRegisters fun g v => { g with registers := v },
      setting "memory" readMemory fun g v => { g with memory := v },
      setting "hart" readIdentity fun g v => { g with identity := v },
      setting "clock" readClock fun g v => { g with clock := v }] {}

/-- The checked configuration that a text spells. -/
def ofText (text : String) : Except ConfigError Config :=
  match (Document.ofString? text).bind readAll with
  | none => .error .malformed
  | some c =>
    match c.validate with
    | .error e => .error e
    | .ok () => .ok c

end Config
end Riscv32
