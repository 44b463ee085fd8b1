import Riscv32.Word

/-!
# Floating-point exception flags

The five flags that accrue in the low bits of `fcsr`: invalid operation, division by zero,
overflow, underflow and inexact result.
-/
namespace Riscv32

/-- A set of exception flags. -/
structure FloatFlags where
  bits : BitVec 5
  deriving DecidableEq

namespace FloatFlags

/-- No flag. -/
def none : FloatFlags := ⟨0⟩

/-- An operation without a meaningful result. -/
def invalid : FloatFlags := ⟨16⟩

/-- An exact infinity from finite operands. -/
def divideByZero : FloatFlags := ⟨8⟩

/-- A result too large for the format. -/
def overflow : FloatFlags := ⟨4⟩

/-- A result too small for the format. -/
def underflow : FloatFlags := ⟨2⟩

/-- A rounded result. -/
def inexact : FloatFlags := ⟨1⟩

/-- The flags of both sets. -/
def union (a b : FloatFlags) : FloatFlags := ⟨a.bits ||| b.bits⟩

instance : Union FloatFlags := ⟨union⟩

/-- The flags if the condition holds, otherwise none. -/
def when (condition : Bool) (flags : FloatFlags) : FloatFlags :=
  if condition then flags else none

/-- Whether all flags of `b` are in `a`. -/
def contains (a b : FloatFlags) : Bool := a.bits &&& b.bits == b.bits

/-- Whether no flag is set. -/
def isEmpty (a : FloatFlags) : Bool := a.bits == 0

/-- The flags as the low bits of a word. -/
def toWord (a : FloatFlags) : Word := a.bits.setWidth 32

end FloatFlags
end Riscv32
