import Riscv32.Float.Round

/-!
# Arithmetic

Sum, difference, product, quotient, square root and fused multiply-add, each computed exactly
and rounded once, to nearest with ties to even. This is the arithmetic of the host, which says of
a result that is no number only that it is a NaN: which one it is, of whatever sign and payload,
is an argument here. Exceptions are told from the operands and the result: a NaN out of numbers
and a signaling operand are invalid, an infinity out of finite operands is an overflow; rounding
itself and underflow raise nothing.
-/
namespace Riscv32.FloatBits

variable {p : Precision}

/-- The number nearest to `num / den` units, where an exact zero takes the given sign. -/
def roundSigned (p : Precision) (zeroSign : Bool) (num : Int) (den : Nat) : FloatBits p :=
  round p (if num = 0 then zeroSign else decide (num < 0)) num.natAbs den

/-- The sum. Opposite infinities have none; a zero sum is negative only if both terms are. -/
def add (nan : NaN p) (x y : FloatBits p) : FloatBits p :=
  if x.isNaN || y.isNaN then nan
  else if x.isInfinite then
    if y.isInfinite && x.sign != y.sign then nan else x
  else if y.isInfinite then y
  else roundSigned p (x.sign && y.sign) (x.signedUnits + y.signedUnits) 1

/-- The difference: the sum with the negated second term. -/
def sub (nan : NaN p) (x y : FloatBits p) : FloatBits p := x.add nan y.negate

/-- The product. Zero times infinity has none. -/
def mul (nan : NaN p) (x y : FloatBits p) : FloatBits p :=
  let negative := x.sign != y.sign
  if x.isNaN || y.isNaN then nan
  else if x.isInfinite || y.isInfinite then
    if x.isZero || y.isZero then nan else infinity p negative
  else round p negative (x.units * y.units) (one p)

/-- The quotient. Zero by zero and infinity by infinity have none; any other number divided by
zero is an infinity. -/
def div (nan : NaN p) (x y : FloatBits p) : FloatBits p :=
  let negative := x.sign != y.sign
  if x.isNaN || y.isNaN then nan
  else if x.isInfinite then if y.isInfinite then nan else infinity p negative
  else if y.isInfinite then ofMagnitude p negative 0
  else if y.isZero then if x.isZero then nan else infinity p negative
  else round p negative (x.units * one p) y.units

/-- The largest number whose square is at most `n`, found from bit `bits` down to bit zero;
`root` holds the bits found so far. -/
def squareRootFrom (n : Nat) : Nat → Nat → Nat
  | 0, root => root
  | bits + 1, root =>
    let next := root + (1 <<< bits)
    squareRootFrom n bits (if next * next ≤ n then next else root)

/-- The integer square root of `n`, rounded down. -/
def squareRoot (n : Nat) : Nat := squareRootFrom n (Nat.log2 n / 2 + 1) 0

/-- The square root. A number below zero has none. The integer root has more bits than any
format, so one further bit that tells whether it is exact suffices to round it. -/
def sqrt (nan : NaN p) (x : FloatBits p) : FloatBits p :=
  if x.isNaN then nan
  else if x.isZero then x
  else if x.sign then nan
  else if x.isInfinite then x
  else
    let n := x.units * one p
    let root := squareRoot n
    let rest := if root * root = n then 0 else 1
    round p false (2 * root + rest) 2

/-- The product of the first two numbers plus the third, rounded once. -/
def mulAdd (nan : NaN p) (x y z : FloatBits p) : FloatBits p :=
  let negative := x.sign != y.sign
  if x.isNaN || y.isNaN || z.isNaN then nan
  else if x.isInfinite || y.isInfinite then
    if x.isZero || y.isZero || (z.isInfinite && z.sign != negative) then nan
    else infinity p negative
  else if z.isInfinite then z
  else roundSigned p (negative && z.sign)
    (x.signedUnits * y.signedUnits + z.signedUnits * (one p : Int)) (one p)

/-- The flags of the operands alone. -/
def operandFlags (operands : List (FloatBits p)) : FloatFlags :=
  .when (operands.any isSignaling) .invalid

/-- The flags of an arithmetic result. -/
def resultFlags (operands : List (FloatBits p)) (result : FloatBits p) : FloatFlags :=
  operandFlags operands ∪
    (.when (result.isNaN && !operands.any isNaN) .invalid ∪
      .when (result.isInfinite && operands.all isFinite) (.overflow ∪ .inexact))

/-- Whether a division raises the divide-by-zero flag: a finite nonzero number by a zero. -/
def dividesByZero (x y : FloatBits p) : Bool := y.isZero && !x.isZero && x.isFinite

/-- The lesser of two numbers, or the greater if `greater`. A NaN gives way to the other
operand, two NaNs to the canonical one, and the negative zero is below the positive one. -/
def extremum (greater : Bool) (x y : FloatBits p) : FloatBits p :=
  if x.isNaN then if y.isNaN then canonicalNaN p else y
  else if y.isNaN then x
  else if x.eq y then if x.sign == greater then y else x
  else if x.lt y != greater then x
  else y

/-- The comparisons that write an integer register. -/
inductive Comparison
  | eq
  | lt
  | le
  deriving DecidableEq

/-- The outcome of a comparison. -/
def Comparison.holds (c : Comparison) (x y : FloatBits p) : Bool :=
  match c with
  | eq => x.eq y
  | lt => x.lt y
  | le => x.le y

/-- The flags of a comparison: equality objects to signaling NaNs, the order to every NaN. -/
def Comparison.flags (c : Comparison) (x y : FloatBits p) : FloatFlags :=
  match c with
  | eq => operandFlags [x, y]
  | lt | le => .when (x.isNaN || y.isNaN) .invalid

/-- Where sign injection takes the sign from. -/
inductive SignSource
  | copied
  | negated
  | multiplied
  deriving DecidableEq

/-- The first operand with a sign taken from both. -/
def injectSign (source : SignSource) (x y : FloatBits p) : FloatBits p :=
  x.withSign (match source with
    | .copied => y.sign
    | .negated => !y.sign
    | .multiplied => x.sign != y.sign)

end Riscv32.FloatBits
