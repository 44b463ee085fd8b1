import Riscv32.Float.Flags
import Riscv32.Float.Precision

/-!
# Rounding

Exact values are quotients of natural numbers, so every rounding here is a rule on a numerator
and a denominator. `roundInteger` rounds to an integer in each of the five modes;
`roundMagnitude` rounds a quotient of units to the nearest magnitude of a format, ties to the
even one. Because magnitudes are ordered like the values, a carry out of the fraction moves on
into the exponent by itself, and a value beyond the largest number becomes infinity.
-/
namespace Riscv32

/-- The directions in which a value is rounded to an integer. -/
inductive RoundingMode
  /-- To nearest, ties to the even neighbour. -/
  | nearestEven
  /-- Toward zero. -/
  | towardZero
  /-- Down. -/
  | down
  /-- Up. -/
  | up
  /-- To nearest, ties away from zero. -/
  | nearestAway
  deriving DecidableEq, Inhabited

namespace RoundingMode

/-- The mode of a rounding-mode field; three encodings stand for none. -/
def ofField? (field : BitVec 3) : Option RoundingMode :=
  match field.toNat with
  | 0 => some nearestEven
  | 1 => some towardZero
  | 2 => some down
  | 3 => some up
  | 4 => some nearestAway
  | _ => none

/-- The mode an instruction runs with: the one in the low bits of its field, or the one in the
low bits of `frm` if the field asks for the dynamic mode. -/
def resolve? (field frm : Word) : Option RoundingMode :=
  ofField? ((if field = 7 then frm else field).extractLsb' 0 3)

/-- Rounds the absolute value `num / den` of a number with the given sign. -/
def roundInteger (mode : RoundingMode) (negative : Bool) (num den : Nat) : Nat :=
  let q := num / den
  let r := num % den
  let roundUp := match mode with
    | nearestEven => decide (den < 2 * r) || (2 * r == den && q % 2 == 1)
    | towardZero => false
    | down => negative && decide (0 < r)
    | up => !negative && decide (0 < r)
    | nearestAway => decide (den ≤ 2 * r)
  if roundUp then q + 1 else q

end RoundingMode

namespace FloatBits

/-- The magnitude nearest to `num / den` units, ties to even. The fraction is rounded at the
place that leaves as many bits as the format has, and infinity is the largest outcome. -/
def roundMagnitude (p : Precision) (num den : Nat) : Nat :=
  let shift := Nat.log2 (num / den) - p.fractionBits
  let significand := RoundingMode.nearestEven.roundInteger false num (den * (1 <<< shift))
  min p.infinity (significand + shift * (1 <<< p.fractionBits))

/-- The number nearest to `num / den` units with the given sign, ties to even. -/
def round (p : Precision) (negative : Bool) (num den : Nat) : FloatBits p :=
  ofMagnitude p negative (roundMagnitude p num den)

/-- The number of units in the integer one. -/
def one (p : Precision) : Nat := 1 <<< p.unitExponent

end FloatBits
end Riscv32
