import Riscv32.Word

/-!
# Floating-point formats

A number of a given precision is its bit pattern: a sign bit, an exponent field and a
fraction field. Below the sign bit lies the *magnitude*, whose order as a number is the order
of the values: zeros, subnormal numbers, normal numbers, infinity, then the NaNs. Every
finite magnitude is a whole multiple, its *units*, of the least positive number of the format.
-/
namespace Riscv32

/-- The two binary formats of the hart. -/
inductive Precision
  | single
  | double
  deriving DecidableEq, Inhabited

namespace Precision

/-- The size of the format in bits. -/
def width : Precision → Nat
  | single => 32
  | double => 64

/-- The size of the fraction field. -/
def fractionBits : Precision → Nat
  | single => 23
  | double => 52

/-- The least positive number of the format is two to the power of minus this. -/
def unitExponent : Precision → Nat
  | single => 149
  | double => 1074

/-- The position of the sign bit, and so the size of the magnitude. -/
def magnitudeBits (p : Precision) : Nat := p.width - 1

/-- The magnitude of infinity: an exponent field of ones and a fraction field of zeros. -/
def infinity (p : Precision) : Nat := (1 <<< p.magnitudeBits) - (1 <<< p.fractionBits)

/-- The bit of the fraction field that tells quiet NaNs from signaling ones. -/
def quietBit (p : Precision) : Nat := 1 <<< (p.fractionBits - 1)

/-- The size of the format in bytes. -/
def bytes (p : Precision) : Nat := p.width / 8

end Precision

/-- A bit pattern of a floating-point format. -/
abbrev FloatBits (p : Precision) := BitVec p.width

namespace FloatBits

variable {p : Precision}

/-- The sign bit. -/
def sign (x : FloatBits p) : Bool := x.msb

/-- The pattern without its sign bit. -/
def magnitude (x : FloatBits p) : Nat := x.toNat % (1 <<< p.magnitudeBits)

/-- The pattern with the given sign and magnitude. -/
def ofMagnitude (p : Precision) (negative : Bool) (m : Nat) : FloatBits p :=
  BitVec.ofNat p.width (negative.toNat * (1 <<< p.magnitudeBits) + m)

/-- The infinity of a sign. -/
def infinity (p : Precision) (negative : Bool) : FloatBits p := ofMagnitude p negative p.infinity

/-- The quiet NaN that arithmetic gives: positive, with no payload. -/
def canonicalNaN (p : Precision) : FloatBits p :=
  ofMagnitude p false (p.infinity + p.quietBit)

/-- Whether the pattern is no number. -/
def isNaN (x : FloatBits p) : Bool := decide (p.infinity < x.magnitude)

/-- Whether the pattern is an infinity. -/
def isInfinite (x : FloatBits p) : Bool := x.magnitude == p.infinity

/-- Whether the pattern is a zero of either sign. -/
def isZero (x : FloatBits p) : Bool := x.magnitude == 0

/-- Whether the pattern is a nonzero number with an exponent field of zeros. -/
def isSubnormal (x : FloatBits p) : Bool :=
  decide (0 < x.magnitude) && decide (x.magnitude < 1 <<< p.fractionBits)

/-- Whether the pattern is neither an infinity nor a NaN. -/
def isFinite (x : FloatBits p) : Bool := decide (x.magnitude < p.infinity)

/-- Whether the pattern is a NaN that must signal. -/
def isSignaling (x : FloatBits p) : Bool :=
  x.isNaN && x.magnitude / p.quietBit % 2 == 0

/-- The same magnitude with the given sign. -/
def withSign (x : FloatBits p) (negative : Bool) : FloatBits p :=
  ofMagnitude p negative x.magnitude

/-- The same magnitude with the other sign. -/
def negate (x : FloatBits p) : FloatBits p := x.withSign !x.sign

/-- The pattern itself, or the canonical NaN in place of any NaN. -/
def canonical (x : FloatBits p) : FloatBits p := if x.isNaN then canonicalNaN p else x

/-- The bit patterns that are no number. -/
abbrev NaN (p : Precision) := { x : FloatBits p // x.isNaN = true }

/-- The canonical NaN as one of the NaNs. -/
def NaN.canonical (p : Precision) : NaN p := ⟨canonicalNaN p, by cases p <;> decide⟩

/-- The multiple of the least positive number that a finite magnitude stands for. -/
def unitsOf (p : Precision) (m : Nat) : Nat :=
  let exponent := m / (1 <<< p.fractionBits)
  let fraction := m % (1 <<< p.fractionBits)
  if exponent = 0 then fraction else ((1 <<< p.fractionBits) + fraction) * (1 <<< (exponent - 1))

/-- The absolute value of a finite pattern, in units of the least positive number. -/
def units (x : FloatBits p) : Nat := unitsOf p x.magnitude

/-- The value of a finite pattern, in units of the least positive number. -/
def signedUnits (x : FloatBits p) : Int := if x.sign then -(x.units : Int) else x.units

/-- The place of a pattern in the order of the numbers; both zeros have place zero. -/
def rank (x : FloatBits p) : Int := if x.sign then -(x.magnitude : Int) else x.magnitude

/-- Numerical equality: a NaN equals nothing and the zeros are equal. -/
def eq (x y : FloatBits p) : Bool := !x.isNaN && !y.isNaN && x.rank == y.rank

/-- The numerical order: a NaN is below nothing. -/
def lt (x y : FloatBits p) : Bool := !x.isNaN && !y.isNaN && decide (x.rank < y.rank)

/-- The numerical order with equality. -/
def le (x y : FloatBits p) : Bool := !x.isNaN && !y.isNaN && decide (x.rank ≤ y.rank)

/-- The ten-bit mask that tells the class of a pattern; exactly one bit is set. -/
def classMask (x : FloatBits p) : Word :=
  let place :=
    if x.isNaN then (if x.isSignaling then 8 else 9)
    else if x.isInfinite then (if x.sign then 0 else 7)
    else if x.isZero then (if x.sign then 3 else 4)
    else if x.isSubnormal then (if x.sign then 2 else 5)
    else if x.sign then 1 else 6
  1#32 <<< place

end FloatBits

/-- A pattern together with its precision. -/
structure FloatValue where
  precision : Precision
  bits : FloatBits precision

end Riscv32
