import Riscv32.Hart.Integer

/-!
# Multiplication and division

No operand makes these instructions fail. Division by zero gives all ones and leaves the
dividend as the remainder; the least signed word divided by minus one gives itself and no
remainder.
-/
namespace Riscv32.Exec

/-- The low word of the product. -/
def multiply (x y : Word) : Word := x * y

/-- The high word of a 64-bit product of integers. -/
def highWordOfProduct (x y : Int) : Word := BitVec.ofInt 32 (x * y / 0x100000000)

/-- The high word of the signed product. -/
def multiplyHigh (x y : Word) : Word := highWordOfProduct x.toInt y.toInt

/-- The high word of the product of a signed and an unsigned word. -/
def multiplyHighMixed (x y : Word) : Word := highWordOfProduct x.toInt y.toNat

/-- The high word of the unsigned product. -/
def multiplyHighUnsigned (x y : Word) : Word := highWordOfProduct x.toNat y.toNat

/-- The signed quotient, rounded toward zero. -/
def divideSigned (x y : Word) : Word := if y = 0 then -1 else x.sdiv y

/-- The unsigned quotient. -/
def divideUnsigned (x y : Word) : Word := if y = 0 then -1 else x / y

/-- The signed remainder, which has the sign of the dividend. -/
def remainderSigned (x y : Word) : Word := if y = 0 then x else x.srem y

/-- The unsigned remainder. -/
def remainderUnsigned (x y : Word) : Word := if y = 0 then x else x % y

/-- The multiplication and division instructions. -/
def multiplyHandlers : List (String × Handler) :=
  [("mul", registerRegister multiply),
    ("mulh", registerRegister multiplyHigh),
    ("mulhsu", registerRegister multiplyHighMixed),
    ("mulhu", registerRegister multiplyHighUnsigned),
    ("div", registerRegister divideSigned),
    ("divu", registerRegister divideUnsigned),
    ("rem", registerRegister remainderSigned),
    ("remu", registerRegister remainderUnsigned)]

end Riscv32.Exec
