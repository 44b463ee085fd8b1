import Riscv32.Word

/-!
# Numerals and columns

Reading and writing numbers as text. Readers work on lists of characters and take ASCII
digits only. Hexadecimal numbers are written in lower case after `0x`; a padded one has at
least the stated count of digits.
-/
namespace Riscv32.Numeral

/-- The value of a hexadecimal digit, in either case. -/
def digitValue? (c : Char) : Option Nat :=
  if '0' ≤ c ∧ c ≤ '9' then some (c.toNat - '0'.toNat)
  else if 'a' ≤ c ∧ c ≤ 'f' then some (c.toNat - 'a'.toNat + 10)
  else if 'A' ≤ c ∧ c ≤ 'F' then some (c.toNat - 'A'.toNat + 10)
  else none

/-- The value of a digit that belongs to `base`, which is at most sixteen. -/
def digit? (base : Nat) (c : Char) : Option Nat :=
  (digitValue? c).filter (· < base)

/-- The number that digits denote, most significant first, continuing from `acc`. -/
def extend? (base acc : Nat) : List Char → Option Nat
  | [] => some acc
  | c :: cs => do extend? base (base * acc + (← digit? base c)) cs

/-- A numeral: one or more digits and nothing else. -/
def natural? (base : Nat) : List Char → Option Nat
  | [] => none
  | c :: cs => extend? base 0 (c :: cs)

/-- A numeral with an optional plus sign. -/
def unsigned? (base : Nat) : List Char → Option Nat
  | '+' :: cs => natural? base cs
  | cs => natural? base cs

/-- A numeral with an optional sign. -/
def signed? (base : Nat) : List Char → Option Int
  | '-' :: cs => (natural? base cs).map fun n => -(n : Int)
  | '+' :: cs => (natural? base cs).map Int.ofNat
  | cs => (natural? base cs).map Int.ofNat

/-- The hexadecimal numeral of `n` after `0x`. -/
def hex (n : Nat) : String := "0x" ++ String.ofList (Nat.toDigits 16 n)

/-- The hexadecimal numeral of `n` after `0x`, with zeros in front up to `digits` digits. -/
def hexPadded (digits n : Nat) : String :=
  "0x" ++ String.ofList (List.leftpad digits '0' (Nat.toDigits 16 n))

/-- A word as eight hexadecimal digits. -/
def hexWord (w : Word) : String := hexPadded 8 w.toNat

/-- The text moved to the right of a column of the given width. -/
def columnRight (width : Nat) (s : String) : String :=
  String.ofList (List.leftpad width ' ' s.toList)

/-- The text at the left of a column of the given width. -/
def columnLeft (width : Nat) (s : String) : String :=
  String.ofList (List.rightpad width ' ' s.toList)

end Riscv32.Numeral
