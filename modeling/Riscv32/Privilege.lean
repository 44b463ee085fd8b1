import Riscv32.Word

/-!
# Privilege modes

The hart has user mode and machine mode. Each has the two-bit level that the `MPP` field of
`mstatus` and the addresses of control registers use; levels 1 and 2 stand for no mode.
-/
namespace Riscv32

/-- The privilege an instruction runs with. -/
inductive Privilege
  | user
  | machine
  deriving DecidableEq, Inhabited

namespace Privilege

/-- The two-bit level of the mode. -/
def level : Privilege → Word
  | user => 0
  | machine => 3

/-- The mode of a level; only the low two bits of the word count. -/
def ofLevel? (w : Word) : Option Privilege :=
  if w.extractLsb' 0 2 = 0 then some user
  else if w.extractLsb' 0 2 = 3 then some machine
  else none

/-- The name of the mode. -/
def name : Privilege → String
  | user => "User"
  | machine => "Machine"

@[simp] theorem ofLevel?_level (p : Privilege) : ofLevel? p.level = some p := by
  cases p <;> rfl

end Privilege
end Riscv32
