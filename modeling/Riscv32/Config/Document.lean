import Riscv32.Text.Numeral

/-!
# Documents

The JSON grammar, read from a list of characters. A document keeps what a configuration can
ask for: truth values, whole numbers that are written as such, strings and the two kinds of
collections. A string whose escapes do not spell characters is still a string, since it may
stand where nobody reads it.
-/
namespace Riscv32

/-- A JSON value. -/
inductive Document
  | null
  | bool (value : Bool)
  /-- A number; its value is kept if it is written as digits alone. -/
  | number (natural : Option Nat)
  /-- A string; its text is kept if its escapes spell characters. -/
  | string (text : Option String)
  | array (items : List Document)
  | object (fields : List (Option String × Document))

namespace Document

/-- Drops the blanks in front. -/
def skipBlanks (cs : List Char) : List Char :=
  cs.dropWhile fun c => c == ' ' || c == '\n' || c == '\t' || c == '\r'

/-- The value of four hexadecimal digits, and what follows them. -/
def hexFour? : List Char → Option (Nat × List Char)
  | a :: b :: c :: d :: rest => (Numeral.natural? 16 [a, b, c, d]).map fun n => (n, rest)
  | _ => none

/-- A piece of a string: a character, or one half of a pair that spells a character. -/
inductive Piece
  | char (c : Char)
  | highHalf (n : Nat)
  | lowHalf (n : Nat)

/-- The piece of a hexadecimal escape. -/
def pieceOfCode (n : Nat) : Piece :=
  if 0xD800 ≤ n ∧ n ≤ 0xDBFF then .highHalf (n - 0xD800)
  else if 0xDC00 ≤ n ∧ n ≤ 0xDFFF then .lowHalf (n - 0xDC00)
  else .char (Char.ofNat n)

/-- The piece of the escape behind a backslash, and what follows it. -/
def escape? : List Char → Option (Piece × List Char)
  | '"' :: rest => some (.char '"', rest)
  | '\\' :: rest => some (.char '\\', rest)
  | '/' :: rest => some (.char '/', rest)
  | 'b' :: rest => some (.char '\x08', rest)
  | 'f' :: rest => some (.char '\x0c', rest)
  | 'n' :: rest => some (.char '\n', rest)
  | 'r' :: rest => some (.char '\r', rest)
  | 't' :: rest => some (.char '\t', rest)
  | 'u' :: rest => (hexFour? rest).map fun (n, rest) => (pieceOfCode n, rest)
  | _ => none

/-- The characters that pieces spell, unless a half stands without its other half. -/
def spell? : List Piece → Option (List Char)
  | [] => some []
  | .char c :: rest => (spell? rest).map (c :: ·)
  | .highHalf h :: .lowHalf l :: rest =>
    (spell? rest).map (Char.ofNat (0x10000 + h * 0x400 + l) :: ·)
  | _ => none

/-- The pieces of a string behind its opening quote, and what follows its closing quote.
Control characters have to be escaped. -/
def pieces? : Nat → List Char → Option (List Piece × List Char)
  | 0, _ => none
  | _, [] => none
  | _, '"' :: rest => some ([], rest)
  | fuel + 1, '\\' :: rest => do
    let (u, rest) ← escape? rest
    let (us, rest) ← pieces? fuel rest
    return (u :: us, rest)
  | fuel + 1, c :: rest =>
    if c.toNat < 0x20 then none
    else (pieces? fuel rest).map fun (us, rest) => (.char c :: us, rest)

/-- A string behind its opening quote, and what follows it. -/
def stringTail? (cs : List Char) : Option (Option String × List Char) :=
  (pieces? (cs.length + 1) cs).map fun (us, rest) => ((spell? us).map String.ofList, rest)

/-- Whether the character is a decimal digit. -/
def isDigit (c : Char) : Bool := decide ('0' ≤ c) && decide (c ≤ '9')

/-- One or more digits, and what follows them. -/
def digits? (cs : List Char) : Option (List Char × List Char) :=
  match cs.takeWhile isDigit with
  | [] => none
  | ds => some (ds, cs.dropWhile isDigit)

/-- The rest behind an optional fraction, and whether there was one. -/
def fraction? : List Char → Option (Bool × List Char)
  | '.' :: rest => (digits? rest).map fun (_, rest) => (true, rest)
  | rest => some (false, rest)

/-- The rest behind an optional sign. -/
def skipSign : List Char → List Char
  | '+' :: rest => rest
  | '-' :: rest => rest
  | rest => rest

/-- The rest behind an optional exponent, and whether there was one. -/
def exponent? : List Char → Option (Bool × List Char)
  | 'e' :: rest => (digits? (skipSign rest)).map fun (_, rest) => (true, rest)
  | 'E' :: rest => (digits? (skipSign rest)).map fun (_, rest) => (true, rest)
  | rest => some (false, rest)

/-- A number without its sign, and what follows it. A zero stands first only alone. -/
def unsignedNumber? (cs : List Char) : Option (Option Nat × List Char) := do
  let (ds, rest) ← digits? cs
  let (hasFraction, rest) ← fraction? rest
  let (hasExponent, rest) ← exponent? rest
  if ds.length > 1 && ds.head? == some '0' then none
  else some (if hasFraction || hasExponent then none else Numeral.natural? 10 ds, rest)

/-- A number, and what follows it. -/
def number? : List Char → Option (Document × List Char)
  | '-' :: cs => (unsignedNumber? cs).map fun (_, rest) => (.number none, rest)
  | cs => (unsignedNumber? cs).map fun (n, rest) => (.number n, rest)

mutual

/-- A value after optional blanks, and what follows it. -/
def value? : Nat → List Char → Option (Document × List Char)
  | 0, _ => none
  | fuel + 1, cs =>
    match skipBlanks cs with
    | 'n' :: 'u' :: 'l' :: 'l' :: rest => some (.null, rest)
    | 't' :: 'r' :: 'u' :: 'e' :: rest => some (.bool true, rest)
    | 'f' :: 'a' :: 'l' :: 's' :: 'e' :: rest => some (.bool false, rest)
    | '"' :: rest => (stringTail? rest).map fun (s, rest) => (.string s, rest)
    | '[' :: rest =>
      match skipBlanks rest with
      | ']' :: rest => some (.array [], rest)
      | rest => (items? fuel rest).map fun (xs, rest) => (.array xs, rest)
    | '\x7b' :: rest =>
      match skipBlanks rest with
      | '\x7d' :: rest => some (.object [], rest)
      | rest => (fields? fuel rest).map fun (xs, rest) => (.object xs, rest)
    | rest => number? rest

/-- The items of an array that is not empty, and what follows its closing bracket. -/
def items? : Nat → List Char → Option (List Document × List Char)
  | 0, _ => none
  | fuel + 1, cs => do
    let (x, rest) ← value? fuel cs
    match skipBlanks rest with
    | ',' :: rest => (items? fuel rest).map fun (xs, rest) => (x :: xs, rest)
    | ']' :: rest => some ([x], rest)
    | _ => none

/-- The fields of an object that is not empty, and what follows its closing brace. -/
def fields? : Nat → List Char → Option (List (Option String × Document) × List Char)
  | 0, _ => none
  | fuel + 1, cs =>
    match skipBlanks cs with
    | '"' :: rest => do
      let (key, rest) ← stringTail? rest
      match skipBlanks rest with
      | ':' :: rest =>
        let (x, rest) ← value? fuel rest
        match skipBlanks rest with
        | ',' :: rest => (fields? fuel rest).map fun (xs, rest) => ((key, x) :: xs, rest)
        | '\x7d' :: rest => some ([(key, x)], rest)
        | _ => none
      | _ => none
    | _ => none

end

/-- The document that a text spells. Every call of the readers takes a character, so the
length of the text bounds their depth. -/
def ofString? (text : String) : Option Document :=
  let cs := text.toList
  match value? (2 * cs.length + 2) cs with
  | some (d, rest) => if (skipBlanks rest).isEmpty then some d else none
  | none => none

end Document
end Riscv32
