import Riscv32.Hart.Atomic
import Riscv32.Hart.Control
import Riscv32.Hart.Floating
import Riscv32.Hart.Multiply

/-!
# Dispatch

Instructions are found by mnemonic in a table that is merged from instruction sets. No mnemonic
may be registered twice, so the order of the sets decides only which of two clashing
registrations is reported.
-/
namespace Riscv32

/-- A named collection of instructions. -/
structure InstructionSet where
  name : String
  handlers : List (String × Handler)

namespace InstructionSet

/-- The base integer instructions. -/
def integer : InstructionSet := ⟨"rv32i", Exec.integerHandlers⟩

/-- Multiplication and division. -/
def multiplication : InstructionSet := ⟨"rv32m", Exec.multiplyHandlers⟩

/-- The atomic instructions. -/
def atomic : InstructionSet := ⟨"rv32a", Exec.atomicHandlers⟩

/-- Single-precision arithmetic. -/
def singlePrecision : InstructionSet := ⟨"rv32f", Exec.singleHandlers⟩

/-- Double-precision arithmetic. -/
def doublePrecision : InstructionSet := ⟨"rv32d", Exec.doubleHandlers⟩

/-- The control register instructions. -/
def controlRegister : InstructionSet := ⟨"zicsr", Exec.csrHandlers⟩

/-- The privileged instructions. -/
def system : InstructionSet := ⟨"system", Exec.systemHandlers⟩

/-- The sets of a hart for which nothing else is asked. -/
def standard : List InstructionSet :=
  [integer, multiplication, atomic, singlePrecision, doublePrecision, controlRegister, system]

end InstructionSet

/-- The behaviour of a mnemonic and the set it comes from. -/
structure Registration where
  mnemonic : String
  owner : String
  handler : Handler

/-- The registrations of a set, in its order. -/
def InstructionSet.registrations (s : InstructionSet) : List Registration :=
  s.handlers.map fun (mnemonic, handler) => ⟨mnemonic, s.name, handler⟩

/-- Registered instructions, in the order of registration. -/
structure DispatchTable where
  entries : List Registration := []

namespace DispatchTable

/-- The registration of a mnemonic. -/
def find? (t : DispatchTable) (mnemonic : String) : Option Registration :=
  t.entries.find? (·.mnemonic == mnemonic)

/-- Adds a registration, whose mnemonic must be new. -/
def add (t : DispatchTable) (r : Registration) : Except HartError DispatchTable :=
  match t.find? r.mnemonic with
  | some first => .error (.duplicateMnemonic r.mnemonic first.owner r.owner)
  | none => .ok ⟨t.entries ++ [r]⟩

/-- The table of the given sets. -/
def build (sets : List InstructionSet) : Except HartError DispatchTable :=
  (sets.flatMap InstructionSet.registrations).foldlM add {}

/-- The behaviour of a mnemonic. -/
def handler? (t : DispatchTable) (mnemonic : String) : Option Handler :=
  (t.find? mnemonic).map (·.handler)

/-- The set that registered a mnemonic. -/
def owner? (t : DispatchTable) (mnemonic : String) : Option String :=
  (t.find? mnemonic).map (·.owner)

/-- The count of registered mnemonics. -/
def size (t : DispatchTable) : Nat := t.entries.length

/-- Whether nothing is registered. -/
def isEmpty (t : DispatchTable) : Bool := t.entries.isEmpty

/-- The registered mnemonics in alphabetical order. -/
def mnemonics (t : DispatchTable) : List String :=
  (t.entries.map (·.mnemonic)).mergeSort fun x y => decide (x ≤ y)

/-- A line that sums up the table. -/
def summary (t : DispatchTable) : String :=
  s!"DispatchTable \x7b mnemonics: {t.size} \x7d"

end DispatchTable
end Riscv32
