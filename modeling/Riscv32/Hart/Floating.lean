import Riscv32.Float.Arithmetic
import Riscv32.Float.Convert
import Riscv32.Hart.Exec

/-!
# Floating-point instructions

One definition serves both precisions. Arithmetic rounds to nearest whatever the rounding mode
says, but a reserved mode makes the instruction illegal; conversions to integers follow the
mode. The host computes, and it may give any NaN, so that a result is made canonical before it is
written; where no NaN of the host can come up, it is written as it is. Double precision needs
registers of that width: without them its instructions are illegal. Operand positions of a
rounding mode follow those of the registers.
-/
namespace Riscv32.Exec

/-- The rounding mode of an instruction, which is illegal if the mode is reserved. -/
def rounding (inst : Instruction) (index : Nat) : Exec RoundingMode := do
  let field ← inst.roundingMode index
  let h ← get
  match RoundingMode.resolve? (field.setWidth 32) h.dynamicRounding with
  | some mode => return mode
  | none => illegal inst

/-- Refuses a double-precision instruction if the registers are too narrow. -/
def needs (p : Precision) (inst : Instruction) : Exec Unit := do
  let h ← get
  if p = .double ∧ h.regs.floats.precision = .single then illegal inst

variable (p : Precision)

/-- The NaN that the arithmetic of the host gives for now. -/
def hostNaN : Exec (FloatBits.NaN p) := do
  let h ← get
  return h.nans h.cycle p

/-- Accrues flags and writes a number, as it is. -/
def deliver (rd : Nat) (flags : FloatFlags) (x : FloatBits p) : Exec Unit := do
  accrue flags
  writeF p rd x

/-- Writes an arithmetic result with its flags. A NaN becomes canonical. -/
def finish (rd : Nat) (operands : List (FloatBits p)) (result : FloatBits p) : Exec Unit :=
  deliver p rd (FloatBits.resultFlags operands result) result.canonical

/-- Arithmetic on two numbers. -/
def floatBinary (op : FloatBits.NaN p → FloatBits p → FloatBits p → FloatBits p)
    (inst : Instruction) : Exec Unit := do
  let rd ← inst.floatRegister 0
  let x ← readF p (← inst.floatRegister 1)
  let y ← readF p (← inst.floatRegister 2)
  let _ ← rounding inst 3
  let nan ← hostNaN p
  finish p rd [x, y] (op nan x y)

/-- The quotient. A division by zero has a flag of its own and is written as it is. -/
def floatDivide (inst : Instruction) : Exec Unit := do
  let rd ← inst.floatRegister 0
  let x ← readF p (← inst.floatRegister 1)
  let y ← readF p (← inst.floatRegister 2)
  let _ ← rounding inst 3
  let nan ← hostNaN p
  if FloatBits.dividesByZero x y then deliver p rd .divideByZero (x.div nan y)
  else finish p rd [x, y] (x.div nan y)

/-- The square root. -/
def floatSqrt (inst : Instruction) : Exec Unit := do
  let rd ← inst.floatRegister 0
  let x ← readF p (← inst.floatRegister 1)
  let _ ← rounding inst 2
  let nan ← hostNaN p
  finish p rd [x] (x.sqrt nan)

/-- A product and a term, either of them possibly negated. -/
def floatFused (negateProduct negateTerm : Bool) (inst : Instruction) : Exec Unit := do
  let rd ← inst.floatRegister 0
  let x ← readF p (← inst.floatRegister 1)
  let y ← readF p (← inst.floatRegister 2)
  let z ← readF p (← inst.floatRegister 3)
  let _ ← rounding inst 4
  let nan ← hostNaN p
  let factor := if negateProduct then x.negate else x
  let term := if negateTerm then z.negate else z
  finish p rd [x, y, z] (factor.mulAdd nan y term)

/-- Sign injection, which raises nothing and keeps NaNs as they are. -/
def floatInjectSign (source : FloatBits.SignSource) (inst : Instruction) : Exec Unit := do
  let rd ← inst.floatRegister 0
  let x ← readF p (← inst.floatRegister 1)
  let y ← readF p (← inst.floatRegister 2)
  writeF p rd (x.injectSign source y)

/-- The lesser or the greater of two numbers, written as it is. -/
def floatExtremum (greater : Bool) (inst : Instruction) : Exec Unit := do
  let rd ← inst.floatRegister 0
  let x ← readF p (← inst.floatRegister 1)
  let y ← readF p (← inst.floatRegister 2)
  deliver p rd (FloatBits.operandFlags [x, y]) (x.extremum greater y)

/-- A comparison. -/
def floatCompare (c : FloatBits.Comparison) (inst : Instruction) : Exec Unit := do
  let rd ← inst.register 0
  let x ← readF p (← inst.floatRegister 1)
  let y ← readF p (← inst.floatRegister 2)
  accrue (c.flags x y)
  writeX rd (.ofBool (c.holds x y))

/-- The class of a number. -/
def floatClassify (inst : Instruction) : Exec Unit := do
  let rd ← inst.register 0
  let x ← readF p (← inst.floatRegister 1)
  writeX rd x.classMask

/-- Conversion to an integer. -/
def floatToInteger (convert : FloatBits p → RoundingMode → Word × FloatFlags)
    (inst : Instruction) : Exec Unit := do
  let rd ← inst.register 0
  let x ← readF p (← inst.floatRegister 1)
  let mode ← rounding inst 2
  let (v, flags) := convert x mode
  accrue flags
  writeX rd v

/-- Conversion from an integer, inexact if the number differs from it. It is written as it is. -/
def floatOfInteger (value : Word → Int) (inst : Instruction) : Exec Unit := do
  let rd ← inst.floatRegister 0
  let v ← readX (← inst.register 1)
  let _ ← rounding inst 2
  let x := FloatBits.ofInt p (value v)
  deliver p rd (.when (!x.isInteger (value v)) .inexact) x

/-- Conversion between the two precisions. A NaN becomes canonical. -/
def floatConvert (q : Precision) (inst : Instruction) : Exec Unit := do
  let rd ← inst.floatRegister 0
  let x ← readF p (← inst.floatRegister 1)
  let _ ← rounding inst 2
  let nan ← hostNaN q
  let y := x.convert q nan
  deliver q rd (x.convertFlags y) y.canonical

/-- Loads a number. -/
def floatLoad (inst : Instruction) : Exec Unit := do
  let rd ← inst.floatRegister 0
  let addr ← effectiveAddress inst
  let v ← load addr p.bytes
  writeF p rd (BitVec.ofNat p.width v)

/-- Stores a number. -/
def floatStore (inst : Instruction) : Exec Unit := do
  let x ← readF p (← inst.floatRegister 0)
  let addr ← effectiveAddress inst
  store addr p.bytes x.toNat

/-- Moves the bits of a number to an integer register. -/
def floatToBits (inst : Instruction) : Exec Unit := do
  let rd ← inst.register 0
  let x ← readF .single (← inst.floatRegister 1)
  writeX rd x

/-- Moves the bits of an integer register to a number. -/
def floatOfBits (inst : Instruction) : Exec Unit := do
  let rd ← inst.floatRegister 0
  let v ← readX (← inst.register 1)
  writeF .single rd v

/-- The single-precision instructions. -/
def singleHandlers : List (String × Handler) :=
  [("flw", floatLoad .single),
    ("fsw", floatStore .single),
    ("fmadd.s", floatFused .single false false),
    ("fmsub.s", floatFused .single false true),
    ("fnmsub.s", floatFused .single true false),
    ("fnmadd.s", floatFused .single true true),
    ("fadd.s", floatBinary .single FloatBits.add),
    ("fsub.s", floatBinary .single FloatBits.sub),
    ("fmul.s", floatBinary .single FloatBits.mul),
    ("fdiv.s", floatDivide .single),
    ("fsqrt.s", floatSqrt .single),
    ("fsgnj.s", floatInjectSign .single .copied),
    ("fsgnjn.s", floatInjectSign .single .negated),
    ("fsgnjx.s", floatInjectSign .single .multiplied),
    ("fmin.s", floatExtremum .single false),
    ("fmax.s", floatExtremum .single true),
    ("fcvt.w.s", floatToInteger .single FloatBits.toSigned),
    ("fcvt.wu.s", floatToInteger .single FloatBits.toUnsigned),
    ("fmv.x.w", floatToBits),
    ("fclass.s", floatClassify .single),
    ("feq.s", floatCompare .single .eq),
    ("flt.s", floatCompare .single .lt),
    ("fle.s", floatCompare .single .le),
    ("fcvt.s.w", floatOfInteger .single BitVec.toInt),
    ("fcvt.s.wu", floatOfInteger .single fun v => v.toNat),
    ("fmv.w.x", floatOfBits)]

/-- A double-precision instruction, refused where the registers are too narrow. -/
def wide (handler : Handler) : Handler := fun inst => do
  needs .double inst
  handler inst

/-- The double-precision instructions. -/
def doubleHandlers : List (String × Handler) :=
  [("fld", wide <| floatLoad .double),
    ("fsd", wide <| floatStore .double),
    ("fmadd.d", wide <| floatFused .double false false),
    ("fmsub.d", wide <| floatFused .double false true),
    ("fnmsub.d", wide <| floatFused .double true false),
    ("fnmadd.d", wide <| floatFused .double true true),
    ("fadd.d", wide <| floatBinary .double FloatBits.add),
    ("fsub.d", wide <| floatBinary .double FloatBits.sub),
    ("fmul.d", wide <| floatBinary .double FloatBits.mul),
    ("fdiv.d", wide <| floatDivide .double),
    ("fsqrt.d", wide <| floatSqrt .double),
    ("fsgnj.d", wide <| floatInjectSign .double .copied),
    ("fsgnjn.d", wide <| floatInjectSign .double .negated),
    ("fsgnjx.d", wide <| floatInjectSign .double .multiplied),
    ("fmin.d", wide <| floatExtremum .double false),
    ("fmax.d", wide <| floatExtremum .double true),
    ("fcvt.s.d", wide <| floatConvert .double .single),
    ("fcvt.d.s", wide <| floatConvert .single .double),
    ("feq.d", wide <| floatCompare .double .eq),
    ("flt.d", wide <| floatCompare .double .lt),
    ("fle.d", wide <| floatCompare .double .le),
    ("fclass.d", wide <| floatClassify .double),
    ("fcvt.w.d", wide <| floatToInteger .double FloatBits.toSigned),
    ("fcvt.wu.d", wide <| floatToInteger .double FloatBits.toUnsigned),
    ("fcvt.d.w", wide <| floatOfInteger .double BitVec.toInt),
    ("fcvt.d.wu", wide <| floatOfInteger .double fun v => v.toNat)]

end Riscv32.Exec
