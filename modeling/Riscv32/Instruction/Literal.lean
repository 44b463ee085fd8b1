import Riscv32.Text.Numeral

/-!
# Literals

A literal is a number in an operand: an optional minus sign and a body in which underscores do
not count. The body is a decimal numeral, or `0x` and a hexadecimal one, or `0b` and a binary
one; the numeral itself may carry a sign of its own. The number of the body is kept as a signed
doubleword, and there is none for a number beyond that. A literal stands for a word if its value
lies between the least signed and the greatest unsigned word. Rounding modes have names.
-/
namespace Riscv32.Literal

open Numeral

/-- The number that a body without underscores denotes. -/
def magnitude? : List Char → Option Int
  | '0' :: 'x' :: cs => signed? 16 cs
  | '0' :: 'X' :: cs => signed? 16 cs
  | '0' :: 'b' :: cs => signed? 2 cs
  | '0' :: 'B' :: cs => signed? 2 cs
  | cs => signed? 10 cs

/-- The signed doubleword of a number, if the number is in its range. -/
def doubleword? (v : Int) : Option (BitVec 64) :=
  if -0x8000000000000000 ≤ v ∧ v < 0x8000000000000000 then some (BitVec.ofInt 64 v) else none

/-- The number that a body denotes, underscores aside, as a signed doubleword. -/
def body? (cs : List Char) : Option (BitVec 64) :=
  (magnitude? (cs.filter (· != '_'))).bind doubleword?

/-- The signed doubleword that a literal denotes. The opposite of the least one wraps. -/
def value? : List Char → Option (BitVec 64)
  | '-' :: cs => (body? cs).map (-·)
  | cs => body? cs

/-- Whether a doubleword is a signed or an unsigned word. -/
def fitsWord (v : BitVec 64) : Bool :=
  decide (-0x80000000 ≤ v.toInt) && decide (v.toInt < 0x100000000)

/-- The word that a literal stands for: the low half of its value. -/
def word? (token : String) : Option Word :=
  ((value? token.toList).filter fitsWord).map (BitVec.setWidth 32)

/-- The rounding-mode field that selects the mode held in `frm`. -/
def dynamicRounding : BitVec 3 := 7

/-- The rounding-mode field of a name. -/
def roundingMode? : String → Option (BitVec 3)
  | "rne" => some 0
  | "rtz" => some 1
  | "rdn" => some 2
  | "rup" => some 3
  | "rmm" => some 4
  | "dyn" => some dynamicRounding
  | _ => none

end Riscv32.Literal
