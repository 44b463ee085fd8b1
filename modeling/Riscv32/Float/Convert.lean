import Riscv32.Float.Round

/-!
# Conversions

Between the two formats, from integers to numbers, and from numbers to integers. A NaN gives some
NaN of the other format, again an argument. A conversion to an integer looks at the rounded value:
outside the range of the integers it gives the nearest end of the range and the invalid flag, inside
it the inexact flag exactly if rounding changed the value. NaNs count as larger than everything.
-/
namespace Riscv32.FloatBits

variable {p q : Precision}

/-- The number of another format nearest to the value. -/
def convert (x : FloatBits p) (q : Precision) (nan : NaN q := .canonical q) : FloatBits q :=
  if x.isNaN then nan
  else if x.isInfinite then infinity q x.sign
  else round q x.sign (x.units * one q) (one p)

/-- The number nearest to an integer. -/
def ofInt (p : Precision) (i : Int) : FloatBits p :=
  round p (decide (i < 0)) (i.natAbs * one p) 1

/-- Whether the finite number is exactly the integer. -/
def isInteger (x : FloatBits p) (i : Int) : Bool := x.signedUnits == i * (one p : Int)

/-- The number rounded to an integral number with the same sign. -/
def roundIntegral (x : FloatBits p) (mode : RoundingMode) : FloatBits p :=
  if x.isFinite then round p x.sign (mode.roundInteger x.sign x.units (one p) * one p) 1
  else x

/-- The integer that the mode rounds a finite number to. -/
def roundedInt (x : FloatBits p) (mode : RoundingMode) : Int :=
  let n := mode.roundInteger x.sign x.units (one p)
  if x.sign then -(n : Int) else n

/-- The integer from `lo` to `hi` that the number is converted to, with the flags. -/
def toIntIn (x : FloatBits p) (mode : RoundingMode) (lo hi : Int) : Int × FloatFlags :=
  if x.isNaN then (hi, .invalid)
  else if x.isInfinite then (if x.sign then lo else hi, .invalid)
  else
    let i := x.roundedInt mode
    if hi < i then (hi, .invalid)
    else if i < lo then (lo, .invalid)
    else (i, .when (!x.isInteger i) .inexact)

/-- Conversion to a signed word. -/
def toSigned (x : FloatBits p) (mode : RoundingMode) : Word × FloatFlags :=
  let (i, flags) := x.toIntIn mode (-0x80000000) 0x7FFFFFFF
  (BitVec.ofInt 32 i, flags)

/-- Conversion to an unsigned word. -/
def toUnsigned (x : FloatBits p) (mode : RoundingMode) : Word × FloatFlags :=
  let (i, flags) := x.toIntIn mode 0 0xFFFFFFFF
  (BitVec.ofInt 32 i, flags)

/-- The flags of a conversion between formats that gave `y`: invalid for a signaling NaN, inexact if
a finite value changed, and overflow as well if it became an infinity. -/
def convertFlags (x : FloatBits p) (y : FloatBits q) : FloatFlags :=
  let changed := x.isFinite &&
    (y.isInfinite || y.signedUnits * (one p : Int) != x.signedUnits * (one q : Int))
  FloatFlags.when x.isSignaling .invalid ∪
    (.when changed .inexact ∪ .when (changed && y.isInfinite) .overflow)

end Riscv32.FloatBits
