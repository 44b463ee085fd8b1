import Riscv32.Text.Numeral

/-!
# Register names

Each integer register and each floating-point register has a name in the calling convention
and a numbered name. Integer register 8 is also the frame pointer `fp`.
-/
namespace Riscv32.Register

open Numeral

/-- The count of integer registers and of floating-point registers. -/
def count : Nat := 32

/-- The register that is always zero. -/
def zero : Nat := 0

/-- The return address register. -/
def returnAddress : Nat := 1

/-- The stack pointer. -/
def stackPointer : Nat := 2

/-- The frame pointer. -/
def framePointer : Nat := 8

/-- The first argument register, which also takes results. -/
def argument0 : Nat := 10

/-- The second argument register. -/
def argument1 : Nat := 11

/-- The third argument register. -/
def argument2 : Nat := 12

/-- The register that holds the number of a system call. -/
def syscallNumber : Nat := 17

/-- The calling-convention names of the integer registers, in order. -/
def integerNames : List String :=
  ["zero", "ra", "sp", "gp", "tp", "t0", "t1", "t2", "s0", "s1", "a0", "a1", "a2", "a3", "a4",
    "a5", "a6", "a7", "s2", "s3", "s4", "s5", "s6", "s7", "s8", "s9", "s10", "s11", "t3", "t4",
    "t5", "t6"]

/-- The calling-convention names of the floating-point registers, in order. -/
def floatNames : List String :=
  ["ft0", "ft1", "ft2", "ft3", "ft4", "ft5", "ft6", "ft7", "fs0", "fs1", "fa0", "fa1", "fa2",
    "fa3", "fa4", "fa5", "fa6", "fa7", "fs2", "fs3", "fs4", "fs5", "fs6", "fs7", "fs8", "fs9",
    "fs10", "fs11", "ft8", "ft9", "ft10", "ft11"]

/-- Whether digits after the letter of a numbered name may be read: there are some, and a zero
stands first only when it stands alone. -/
def startsPlainly : List Char → Bool
  | [] => false
  | [_] => true
  | c :: _ => c != '0'

/-- The index of a numbered name: the letter, then a numeral below the register count, in
front of which a plus sign may stand. -/
def numbered? (letter : Char) (name : String) : Option Nat :=
  match name.toList with
  | [] => none
  | c :: digits =>
    if c = letter ∧ startsPlainly digits then (unsigned? 10 digits).filter (· < count) else none

/-- The position of a name in a list of names. -/
def position? (names : List String) (name : String) : Option Nat :=
  names.findIdx? (· == name)

/-- The integer register of a name. -/
def integerIndex? (name : String) : Option Nat :=
  if name = "fp" then some framePointer
  else (position? integerNames name).or (numbered? 'x' name)

/-- The floating-point register of a name. -/
def floatIndex? (name : String) : Option Nat :=
  (position? floatNames name).or (numbered? 'f' name)

/-- The name of an integer register, `x?` outside the file. -/
def integerName (i : Nat) : String := integerNames.getD i "x?"

/-- The name of a floating-point register, `f?` outside the file. -/
def floatName (i : Nat) : String := floatNames.getD i "f?"

@[simp] theorem length_integerNames : integerNames.length = count := rfl
@[simp] theorem length_floatNames : floatNames.length = count := rfl

end Riscv32.Register
