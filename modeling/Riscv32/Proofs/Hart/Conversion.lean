import Riscv32.Proofs.Float.Conversion
import Riscv32.Proofs.Hart.Effect
import Riscv32.Proofs.Hart.Executable
import Riscv32.Proofs.Instruction.Operand

/-!
# Conversions to floating-point registers

An integer register or a register of the other precision is converted to the nearest number, ties to
the even one, and the flags accrue that tell how the value changed. Integers and single-precision
numbers are converted to double precision without any change. The rounding mode of the instruction
has to be one that exists, and no more than that.

## Main definitions

* `ConversionOp` — the instructions, with what each reads, computes and raises.

## Main statements

* `ConversionOp.eq_ok`, what an instruction does to the hart.
* `Exec.conversion_exact`, that this is the conversion of the value it reads.
-/
namespace Riscv32

open FloatBits

/-- Conversions to floating-point registers. -/
inductive ConversionOp
  /-- From an integer, signed or not. -/
  | ofInteger (target : Precision) (signed : Bool)
  /-- From double to single precision. -/
  | narrow
  /-- From single to double precision. -/
  | widen
  deriving DecidableEq

/-- The integer that a word stands for. -/
def Word.integer (signed : Bool) : Word → Int :=
  match signed with
  | true => BitVec.toInt
  | false => fun w => w.toNat

theorem Word.natAbs_integer_lt (signed : Bool) (w : Word) : (integer signed w).natAbs < 2 ^ 32 := by
  cases signed with
  | true =>
    have hlow := BitVec.le_toInt w
    have hhigh := BitVec.toInt_lt (x := w)
    simp only [integer]
    omega
  | false => exact w.isLt

/-- Whether the instruction has a rounding mode. It stands in the instruction or, if that asks for
the dynamic mode, in the control register. -/
def Instruction.HasRounding (inst : Instruction) (index : Nat) (h : Hart) : Prop :=
  ∃ field mode, inst.roundingMode index = .ok field ∧
    RoundingMode.resolve? (field.setWidth 32) h.dynamicRounding = some mode

theorem Exec.exists_rounding {inst : Instruction} {index : Nat} {h : Hart}
    (hmode : inst.HasRounding index h) : ∃ mode, rounding inst index h = .ok mode h := by
  obtain ⟨field, mode, hfield, hresolve⟩ := hmode
  have hget : (get : Exec Hart) h = .ok h h := rfl
  refine ⟨mode, ?_⟩
  rw [rounding, bind_of_ok (operand_of_ok hfield h), bind_of_ok hget, hresolve]
  rfl

namespace Hart

variable (h : Hart)

theorem accrue_regs (regs : RegisterFile) (flags : Word) :
    ({ h with regs } : Hart).accrue flags = { h.accrue flags with regs } := by
  rw [accrue, accrue]
  split <;> rfl

theorem regs_accrue (flags : Word) : (h.accrue flags).regs = h.regs := by
  rw [accrue]
  split <;> rfl

/-- The accrued flags join those that were there. -/
theorem raw_fcsr_accrue (flags : FloatFlags) :
    (h.accrue flags.toWord).csrs.raw Csr.fcsr = h.csrs.raw Csr.fcsr ||| flags.toWord := by
  have hmask : ∀ b : BitVec 5, b.setWidth 32 &&& BitField.floatFlags.mask = b.setWidth 32 := by
    decide
  rw [accrue]
  split
  case isTrue hzero =>
    rw [hzero]
    exact BitVec.or_zero.symm
  case isFalse =>
    simp only [Csr.Store.raw_setRaw, if_true]
    rw [FloatFlags.toWord, hmask]

end Hart

namespace Exec

variable {p q : Precision} {inst : Instruction} {h : Hart} {rd src : Nat}

theorem deliver_eq (p : Precision) (rd : Nat) (flags : FloatFlags) (y : FloatBits p) (h : Hart) :
    deliver p rd flags y h = .ok () { h.accrue flags.toWord with
      regs := { h.regs with floats := h.regs.floats.write p rd y } } := by
  rw [← h.regs_accrue flags.toWord]
  rfl

theorem wide_of_double (f : Handler) (inst : Instruction)
    (hdouble : h.regs.floats.precision = .double) : wide f inst h = f inst h := by
  have hneeds : needs .double inst h = .ok () h := by rw [needs_double_eq, if_pos hdouble]
  rw [wide, bind_of_ok hneeds]

theorem floatOfInteger_eq (value : Word → Int) (hrd : inst.floatRegister 0 = .ok rd)
    (hsrc : inst.register 1 = .ok src) (hmode : inst.HasRounding 2 h) :
    floatOfInteger p value inst h =
      deliver p rd (.when (!(ofInt p (value (h.regs.peek src))).isInteger (value (h.regs.peek src)))
        .inexact) (ofInt p (value (h.regs.peek src))) { h with regs := h.regs.markRead src } := by
  have hmarked : inst.HasRounding 2 { h with regs := h.regs.markRead src } := hmode
  obtain ⟨mode, hrounding⟩ := exists_rounding hmarked
  rw [floatOfInteger, bind_of_ok (operand_of_ok hrd h), bind_of_ok (operand_of_ok hsrc h),
    readX_bind, bind_of_ok hrounding]

/-- What a conversion delivers does not depend on the NaN that the host gives. -/
theorem floatConvert_eq (q : Precision) (hrd : inst.floatRegister 0 = .ok rd)
    (hsrc : inst.floatRegister 1 = .ok src) (hmode : inst.HasRounding 2 h) :
    floatConvert p q inst h =
      deliver q rd
        (FloatBits.convertFlags (h.regs.floats.read p src)
          (FloatBits.convert (h.regs.floats.read p src) q))
        (FloatBits.convert (h.regs.floats.read p src) q).canonical h := by
  obtain ⟨mode, hrounding⟩ := exists_rounding hmode
  rw [floatConvert, bind_of_ok (operand_of_ok hrd h), bind_of_ok (operand_of_ok hsrc h),
    readF_bind, bind_of_ok hrounding, hostNaN_bind,
    canonical_convert _ (.canonical q), convertFlags_convert _ (.canonical q)]

end Exec

namespace ConversionOp

variable {o : ConversionOp} {inst : Instruction} {h : Hart} {rd src : Nat} {mode : RoundingMode}

/-- The name of the instruction. -/
def mnemonic : ConversionOp → String
  | ofInteger .single true => "fcvt.s.w"
  | ofInteger .single false => "fcvt.s.wu"
  | ofInteger .double true => "fcvt.d.w"
  | ofInteger .double false => "fcvt.d.wu"
  | narrow => "fcvt.s.d"
  | widen => "fcvt.d.s"

/-- What is converted. -/
def Operand : ConversionOp → Type
  | ofInteger .. => Word
  | narrow => FloatBits .double
  | widen => FloatBits .single

/-- The precision of the result. -/
def target : ConversionOp → Precision
  | ofInteger p _ => p
  | narrow => .single
  | widen => .double

/-- Whether the instruction needs registers for double precision. -/
def wide : ConversionOp → Bool
  | ofInteger p _ => decide (p = .double)
  | narrow | widen => true

/-- The register that is converted. -/
def source (inst : Instruction) : ConversionOp → Except OperandError Nat
  | ofInteger .. => inst.register 1
  | narrow | widen => inst.floatRegister 1

/-- What is in a register. -/
def operand (f : RegisterFile) (i : Nat) : (o : ConversionOp) → o.Operand
  | ofInteger .. => f.peek i
  | narrow => f.floats.read .double i
  | widen => f.floats.read .single i

/-- The registers after the operand has been read. -/
def marked (f : RegisterFile) (i : Nat) : ConversionOp → RegisterFile
  | ofInteger .. => f.markRead i
  | narrow | widen => f

/-- The result, in which a NaN is the canonical one. -/
def result : (o : ConversionOp) → o.Operand → FloatBits o.target
  | ofInteger p signed, w => ofInt p (Word.integer signed w)
  | narrow, x => (FloatBits.convert x .single).canonical
  | widen, x => (FloatBits.convert x .double).canonical

/-- The flags that are raised. -/
def flags : (o : ConversionOp) → o.Operand → FloatFlags
  | ofInteger p signed, w =>
    .when (!(ofInt p (Word.integer signed w)).isInteger (Word.integer signed w)) .inexact
  | narrow, x => FloatBits.convertFlags x (FloatBits.convert x .single)
  | widen, x => FloatBits.convertFlags x (FloatBits.convert x .double)

/-- What carries the instruction out. -/
def handler : ConversionOp → Handler
  | ofInteger .single signed => Exec.floatOfInteger .single (Word.integer signed)
  | ofInteger .double signed => Exec.wide (Exec.floatOfInteger .double (Word.integer signed))
  | narrow => Exec.wide (Exec.floatConvert .double .single)
  | widen => Exec.wide (Exec.floatConvert .single .double)

theorem handler?_eq (o : ConversionOp) :
    DispatchTable.standard.handler? o.mnemonic = some o.handler := by
  have hmem : (o.mnemonic, o.handler) ∈
      (if o.wide then InstructionSet.doublePrecision else .singlePrecision).handlers := by
    rcases o with ⟨_ | _, _ | _⟩ | _ | _ <;>
      simp [InstructionSet.singlePrecision, InstructionSet.doublePrecision, Exec.singleHandlers,
        Exec.doubleHandlers, mnemonic, handler, wide, Word.integer]
  refine DispatchTable.handler?_of_mem DispatchTable.build_standard ?_ hmem
  split <;> simp [InstructionSet.standard]

/-- A conversion with operands that can be read, a rounding mode that exists and registers that are
wide enough reads its operand, accrues the flags and writes the result. -/
theorem eq_ok (hrd : inst.floatRegister 0 = .ok rd) (hsrc : o.source inst = .ok src)
    (hmode : inst.HasRounding 2 h) (hwide : o.wide → h.regs.floats.precision = .double) :
    o.handler inst h = .ok () { h.accrue (o.flags (o.operand h.regs src)).toWord with
      regs := { o.marked h.regs src with
        floats := h.regs.floats.write o.target rd (o.result (o.operand h.regs src)) } } := by
  cases o with
  | ofInteger p signed =>
    have hhandler : (ofInteger p signed).handler inst h =
        Exec.floatOfInteger p (Word.integer signed) inst h := by
      cases p with
      | single => rfl
      | double => exact Exec.wide_of_double _ inst (hwide rfl)
    rw [hhandler, Exec.floatOfInteger_eq _ hrd hsrc hmode, Exec.deliver_eq, Hart.accrue_regs]
    rfl
  | narrow =>
    rw [handler, Exec.wide_of_double _ inst (hwide rfl),
      Exec.floatConvert_eq .single hrd hsrc hmode, Exec.deliver_eq]
    rfl
  | widen =>
    rw [handler, Exec.wide_of_double _ inst (hwide rfl),
      Exec.floatConvert_eq .double hrd hsrc hmode, Exec.deliver_eq]
    rfl

/-- The registers that the instruction asks for are wide enough for its result. -/
theorem width_target_le {p : Precision} (hwide : o.wide → p = .double) :
    o.target.width ≤ p.width := by
  have hsingle : Precision.single.width ≤ p.width := by cases p <;> decide
  rcases o with ⟨_ | _, signed⟩ | _ | _
  · exact hsingle
  · rw [hwide rfl]
    exact le_rfl
  · exact hsingle
  · rw [hwide rfl]
    exact le_rfl

theorem convertedInteger_result (p : Precision) (signed : Bool) (w : Word) :
    ConvertedInteger (Word.integer signed w) ((ofInteger p signed).result w)
      ((ofInteger p signed).flags w) := by
  apply convertedInteger_ofInt
  calc (Word.integer signed w).natAbs
    _ < 2 ^ 32 := Word.natAbs_integer_lt signed w
    _ ≤ 2 ^ p.bias := Nat.pow_le_pow_right two_pos (by cases p <;> decide)

/-- All integers of a word are numbers of double precision. -/
theorem double_exact (signed : Bool) (w : Word) :
    ((ofInteger .double signed).result w).value = Word.integer signed w ∧
      (ofInteger .double signed).flags w = .none := by
  have hlt : (Word.integer signed w).natAbs < 2 * 2 ^ Precision.double.fractionBits :=
    (Word.natAbs_integer_lt signed w).trans (by decide)
  have hvalue : ((ofInteger .double signed).result w).value = Word.integer signed w :=
    (ofInt_exact hlt).2
  refine ⟨hvalue, ?_⟩
  rw [(convertedInteger_result .double signed w).inexact, decide_eq_false (not_not.mpr hvalue.symm)]
  rfl

end ConversionOp

namespace Exec

open ConversionOp in
/-- Conversions to floating-point registers. An integer is converted to the nearest number, ties to
the even one, and the inexact flag tells whether the number differs from it; in double precision it
never does. A double-precision number is converted to the nearest single-precision number or, if it
is too large, to the infinity of its sign, and the flags tell which of the two happened; zeros and
infinities keep their sign, and every NaN becomes the canonical one, with the invalid flag if it was
signaling. A single-precision number that is no NaN is converted without change and without a flag,
and converting the result back gives its bits again. And each instruction accrues these flags and
writes this number. -/
theorem conversion_exact :
    (∀ (p : Precision) (signed : Bool) (w : Word),
      ConvertedInteger (Word.integer signed w) ((ofInteger p signed).result w)
        ((ofInteger p signed).flags w)) ∧
    (∀ (signed : Bool) (w : Word),
      ((ofInteger .double signed).result w).value = Word.integer signed w ∧
      (ofInteger .double signed).flags w = .none) ∧
    (∀ x : FloatBits .double, Converted x (narrow.result x) (narrow.flags x)) ∧
    (∀ x : FloatBits .single, Converted x (widen.result x) (widen.flags x) ∧
      (x.isNaN = false → widen.flags x = .none ∧
        (x.isFinite → (widen.result x).isFinite ∧ (widen.result x).value = x.value) ∧
        narrow.result (widen.result x) = x ∧ narrow.flags (widen.result x) = .none)) ∧
    ∀ (o : ConversionOp) (inst : Instruction) (h : Hart) (rd src : Nat),
      inst.floatRegister 0 = .ok rd → o.source inst = .ok src → inst.HasRounding 2 h →
      (o.wide → h.regs.floats.precision = .double) →
      ∃ f h', DispatchTable.standard.handler? o.mnemonic = some f ∧ f inst h = .ok () h' ∧
        h'.regs.floats = h.regs.floats.write o.target rd (o.result (o.operand h.regs src)) ∧
        h'.regs.floats.read o.target rd = o.result (o.operand h.regs src) ∧
        h'.csrs.raw Csr.fcsr =
          h.csrs.raw Csr.fcsr ||| (o.flags (o.operand h.regs src)).toWord := by
  refine ⟨convertedInteger_result, double_exact, fun x => converted_convert x .single _, ?_, ?_⟩
  · intro x
    refine ⟨converted_convert x .double _, fun hx => ?_⟩
    obtain ⟨hback, hflags⟩ := convert_convert hx
    have hwidened : widen.result x = FloatBits.convert x .double :=
      canonical_of_number ((isNaN_convert .double).trans hx)
    have hnarrowed : narrow.result (widen.result x) = x := by
      rw [hwidened]
      refine Eq.trans ?_ hback
      exact canonical_of_number (hback.symm ▸ hx)
    refine ⟨convertFlags_eq_none hx (convert_double _), ?_, hnarrowed, ?_⟩
    · rw [hwidened]
      exact convert_double _
    · rw [hwidened]
      exact hflags
  · intro o inst h rd src hrd hsrc hmode hwide
    refine ⟨o.handler, _, o.handler?_eq, eq_ok hrd hsrc hmode hwide, rfl, ?_, ?_⟩
    · exact h.regs.floats.read_write_self (width_target_le hwide)
        (Instruction.floatRegister_lt hrd) _
    · exact h.raw_fcsr_accrue _

open ConversionOp in
/-- A number halfway between one and the next single-precision number becomes one and raises the
inexact flag, and the least single-precision number goes to double precision and back. -/
theorem conversion_exact_of_tie :
    (∃ f h', DispatchTable.standard.handler? "fcvt.s.d" = some f ∧
      f (.structured "fcvt.s.d" ["ft0", "ft1", "rne"])
        ({ regs := { floats := ({} : FloatRegisters).write .double 1 0x3FF0000010000000#64 } } :
          Hart) = .ok () h' ∧
      h'.regs.floats.read .single 0 = 0x3F800000#32 ∧
      h'.csrs.raw Csr.fcsr = Csr.Store.initial.raw Csr.fcsr ||| 1) ∧
    FloatBits.isNaN (p := .single) 1#32 = false ∧ narrow.result (widen.result 1#32) = 1#32 := by
  obtain ⟨-, -, -, hwiden, hinstructions⟩ := conversion_exact
  have hnumber : FloatBits.isNaN (p := .single) 1#32 = false := by decide
  obtain ⟨f, h', hf, hok, -, hread, hflags⟩ := hinstructions .narrow
    (.structured "fcvt.s.d" ["ft0", "ft1", "rne"])
    { regs := { floats := ({} : FloatRegisters).write .double 1 0x3FF0000010000000#64 } } 0 1
    rfl rfl ⟨0, .nearestEven, rfl, rfl⟩ fun _ => rfl
  have hresult : narrow.result 0x3FF0000010000000#64 = 0x3F800000#32 :=
    BitVec.eq_of_toNat_eq (by decide +kernel)
  have hraised : (narrow.flags 0x3FF0000010000000#64).toWord = 1 := by decide +kernel
  exact ⟨⟨f, h', hf, hok, hread.trans hresult, hflags.trans (congrArg _ hraised)⟩, hnumber,
    ((hwiden 1#32).2 hnumber).2.2.1⟩

end Exec
end Riscv32
