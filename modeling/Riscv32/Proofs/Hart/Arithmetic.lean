import Riscv32.Proofs.Float.Extremum
import Riscv32.Proofs.Hart.Conversion
import Riscv32.Proofs.Hart.LoadStore

/-!
# Arithmetic instructions

The instructions that compute a number from numbers read all operands from registers, look up the
rounding mode if they have one, and then accrue their flags and write their result. The host may
have computed any NaN: most of them make it canonical, and the two that write a number as it is,
the lesser or greater of two and a quotient by zero, have nothing to make canonical. So what they do
is said by the result and the flags of the operation. The invalid flag accrues as the standard asks,
but for zero times infinity with a quiet NaN added; the lesser and the greater of two numbers are
those of the order in which the negative zero is below the positive one.

## Main definitions

* `ArithmeticOp.mnemonic`, `ArithmeticOp.handler` — the instruction of an operation.
* `ArithmeticOp.Takes` — the instruction has all that it needs.

## Main statements

* `ArithmeticOp.handler_eq_ok_iff`, when an instruction is carried out and what it does.
* `ArithmeticOp.invalid_iff`, the invalid flag of all of them.
* `ArithmeticOp.extremum_laws`, the lesser and the greater of two numbers.
-/
namespace Riscv32

open FloatBits

/-- The numbers in a row of registers. -/
def Hart.numbers (h : Hart) (p : Precision) (src : Nat → Nat) (k : Nat) : FloatBits p :=
  h.regs.floats.read p (src k)

namespace Exec

variable {α β : Type} {x : Exec α} {f : α → Exec β} {b : β} {p : Precision} {inst : Instruction}
  {h h' : Hart} {handler : Handler} {index : Nat}

/-! ## What succeeds -/

theorem operand_bind_eq_ok_iff {r : Except OperandError α} :
    ((liftM r : Exec α) >>= f) h = .ok b h' ↔ ∃ a, r = .ok a ∧ f a h = .ok b h' := by
  constructor
  · intro hok
    obtain ⟨a, h₁, hoperand, hrest⟩ := bind_eq_ok hok
    obtain ⟨ha, rfl⟩ := operand_eq_ok hoperand
    exact ⟨a, ha, hrest⟩
  · rintro ⟨a, ha, hrest⟩
    rw [bind_of_ok (operand_of_ok ha h), hrest]

theorem rounding_bind_eq_ok_iff {x : Exec β} : (rounding inst index >>= fun _ => x) h = .ok b h' ↔
    inst.HasRounding index h ∧ x h = .ok b h' := by
  constructor
  · intro hok
    obtain ⟨mode, h₁, hrounding, hrest⟩ := bind_eq_ok hok
    rw [rounding, operand_bind_eq_ok_iff] at hrounding
    obtain ⟨field, hfield, hresolve⟩ := hrounding
    have hget : (get : Exec Hart) h = .ok h h := rfl
    rw [bind_of_ok hget] at hresolve
    cases hmode : RoundingMode.resolve? (field.setWidth 32) h.dynamicRounding with
    | none =>
      rw [hmode] at hresolve
      cases hresolve
    | some m =>
      rw [hmode] at hresolve
      cases hresolve
      exact ⟨⟨field, _, hfield, hmode⟩, hrest⟩
  · rintro ⟨hmode, hrest⟩
    obtain ⟨mode, hrounding⟩ := exists_rounding hmode
    rw [bind_of_ok hrounding, hrest]

theorem wide_eq_ok_iff : wide handler inst h = .ok () h' ↔
    h.regs.floats.precision = .double ∧ handler inst h = .ok () h' := by
  constructor
  · intro hok
    refine ⟨?_, wide_eq_ok hok⟩
    obtain ⟨_, h₁, hneeds, -⟩ := bind_eq_ok hok
    rw [needs_double_eq] at hneeds
    split at hneeds
    case isTrue hdouble => exact hdouble
    case isFalse => cases hneeds
  · rintro ⟨hdouble, hok⟩
    rwa [wide_of_double handler inst hdouble]

/-- The instruction names a register for its result and others for a number of operands. -/
def Names (inst : Instruction) (arity rd : Nat) (src : Nat → Nat) : Prop :=
  inst.floatRegister 0 = .ok rd ∧ ∀ k < arity, inst.floatRegister (k + 1) = .ok (src k)

section

variable {op : NaN p → FloatBits p → FloatBits p → FloatBits p}
  {negateProduct negateTerm greater : Bool}

theorem floatBinary_eq_ok_iff : floatBinary p op inst h = .ok () h' ↔
    ∃ rd src, Names inst 2 rd src ∧ inst.HasRounding 3 h ∧
      finish p rd [h.numbers p src 0, h.numbers p src 1]
        (op (h.nans h.cycle p) (h.numbers p src 0) (h.numbers p src 1)) h = .ok () h' := by
  simp only [floatBinary, operand_bind_eq_ok_iff, readF_bind, rounding_bind_eq_ok_iff, hostNaN_bind]
  constructor
  · rintro ⟨rd, hrd, i, hi, j, hj, hrest⟩
    exact ⟨rd, fun n => [i, j].getD n 0, ⟨hrd, fun | 0, _ => hi | 1, _ => hj⟩, hrest⟩
  · rintro ⟨rd, src, ⟨hrd, hsrc⟩, hrest⟩
    exact ⟨rd, hrd, _, hsrc 0 (by decide), _, hsrc 1 (by decide), hrest⟩

theorem floatDivide_eq_ok_iff : floatDivide p inst h = .ok () h' ↔
    ∃ rd src, Names inst 2 rd src ∧ inst.HasRounding 3 h ∧
      let quotient := (h.numbers p src 0).div (h.nans h.cycle p) (h.numbers p src 1)
      (if dividesByZero (h.numbers p src 0) (h.numbers p src 1) then
        deliver p rd .divideByZero quotient
      else finish p rd [h.numbers p src 0, h.numbers p src 1] quotient) h = .ok () h' := by
  simp only [floatDivide, operand_bind_eq_ok_iff, readF_bind, rounding_bind_eq_ok_iff, hostNaN_bind]
  constructor
  · rintro ⟨rd, hrd, i, hi, j, hj, hrest⟩
    exact ⟨rd, fun n => [i, j].getD n 0, ⟨hrd, fun | 0, _ => hi | 1, _ => hj⟩, hrest⟩
  · rintro ⟨rd, src, ⟨hrd, hsrc⟩, hrest⟩
    exact ⟨rd, hrd, _, hsrc 0 (by decide), _, hsrc 1 (by decide), hrest⟩

theorem floatSqrt_eq_ok_iff : floatSqrt p inst h = .ok () h' ↔
    ∃ rd src, Names inst 1 rd src ∧ inst.HasRounding 2 h ∧
      finish p rd [h.numbers p src 0] ((h.numbers p src 0).sqrt (h.nans h.cycle p)) h
        = .ok () h' := by
  simp only [floatSqrt, operand_bind_eq_ok_iff, readF_bind, rounding_bind_eq_ok_iff, hostNaN_bind]
  constructor
  · rintro ⟨rd, hrd, i, hi, hrest⟩
    exact ⟨rd, fun n => [i].getD n 0, ⟨hrd, fun | 0, _ => hi⟩, hrest⟩
  · rintro ⟨rd, src, ⟨hrd, hsrc⟩, hrest⟩
    exact ⟨rd, hrd, _, hsrc 0 (by decide), hrest⟩

theorem floatFused_eq_ok_iff : floatFused p negateProduct negateTerm inst h = .ok () h' ↔
    ∃ rd src, Names inst 3 rd src ∧ inst.HasRounding 4 h ∧
      finish p rd [h.numbers p src 0, h.numbers p src 1, h.numbers p src 2]
        (((h.numbers p src 0).negateIf negateProduct).mulAdd (h.nans h.cycle p)
          (h.numbers p src 1) ((h.numbers p src 2).negateIf negateTerm)) h = .ok () h' := by
  simp only [floatFused, operand_bind_eq_ok_iff, readF_bind, rounding_bind_eq_ok_iff, hostNaN_bind]
  constructor
  · rintro ⟨rd, hrd, i, hi, j, hj, k, hk, hrest⟩
    exact ⟨rd, fun n => [i, j, k].getD n 0, ⟨hrd, fun | 0, _ => hi | 1, _ => hj | 2, _ => hk⟩,
      hrest⟩
  · rintro ⟨rd, src, ⟨hrd, hsrc⟩, hrest⟩
    exact ⟨rd, hrd, _, hsrc 0 (by decide), _, hsrc 1 (by decide), _, hsrc 2 (by decide), hrest⟩

theorem floatExtremum_eq_ok_iff : floatExtremum p greater inst h = .ok () h' ↔
    ∃ rd src, Names inst 2 rd src ∧
      deliver p rd (operandFlags [h.numbers p src 0, h.numbers p src 1])
        ((h.numbers p src 0).extremum greater (h.numbers p src 1)) h = .ok () h' := by
  simp only [floatExtremum, operand_bind_eq_ok_iff, readF_bind]
  constructor
  · rintro ⟨rd, hrd, i, hi, j, hj, hrest⟩
    exact ⟨rd, fun n => [i, j].getD n 0, ⟨hrd, fun | 0, _ => hi | 1, _ => hj⟩, hrest⟩
  · rintro ⟨rd, src, ⟨hrd, hsrc⟩, hrest⟩
    exact ⟨rd, hrd, _, hsrc 0 (by decide), _, hsrc 1 (by decide), hrest⟩

end

end Exec

/-- The invalid flag has accrued. -/
def Hart.invalidAccrued (h : Hart) : Bool := (h.csrs.raw Csr.fcsr).getLsbD 4

theorem FloatFlags.getLsbD_toWord (flags : FloatFlags) :
    flags.toWord.getLsbD 4 = flags.contains .invalid := by
  have hbits : ∀ b : BitVec 5, (b.setWidth 32).getLsbD 4 = (b &&& 16#5 == 16#5) := by decide
  exact hbits flags.bits

theorem Hart.invalidAccrued_accrue (h : Hart) (flags : FloatFlags) :
    (h.accrue flags.toWord).invalidAccrued = true ↔
      h.invalidAccrued = true ∨ flags.contains .invalid = true := by
  rw [invalidAccrued, raw_fcsr_accrue, BitVec.getLsbD_or, FloatFlags.getLsbD_toWord,
    Bool.or_eq_true, ← invalidAccrued]

namespace ArithmeticOp

variable {o : ArithmeticOp} {p : Precision} {inst : Instruction} {h h' : Hart} {rd : Nat}
  {src : Nat → Nat}

/-- The name of the instruction, without its precision. -/
def stem : ArithmeticOp → String
  | add => "fadd"
  | sub => "fsub"
  | mul => "fmul"
  | div => "fdiv"
  | sqrt => "fsqrt"
  | fused false false => "fmadd"
  | fused false true => "fmsub"
  | fused true false => "fnmsub"
  | fused true true => "fnmadd"
  | extremum false => "fmin"
  | extremum true => "fmax"

/-- The name of the instruction. -/
def mnemonic (o : ArithmeticOp) : Precision → String
  | .single => o.stem ++ ".s"
  | .double => o.stem ++ ".d"

/-- What the instruction does if the registers are wide enough. -/
def body (p : Precision) : ArithmeticOp → Handler
  | add => Exec.floatBinary p FloatBits.add
  | sub => Exec.floatBinary p FloatBits.sub
  | mul => Exec.floatBinary p FloatBits.mul
  | div => Exec.floatDivide p
  | sqrt => Exec.floatSqrt p
  | fused negateProduct negateTerm => Exec.floatFused p negateProduct negateTerm
  | extremum greater => Exec.floatExtremum p greater

/-- What carries the instruction out. -/
def handler (o : ArithmeticOp) : Precision → Handler
  | .single => o.body .single
  | .double => Exec.wide (o.body .double)

/-- Whether the instruction has a rounding mode. -/
def isRounded : ArithmeticOp → Bool
  | extremum _ => false
  | add | sub | mul | div | sqrt | fused .. => true

theorem handler?_eq (o : ArithmeticOp) (p : Precision) :
    DispatchTable.standard.handler? (o.mnemonic p) = some (o.handler p) := by
  have hmem : (o.mnemonic p, o.handler p) ∈ (match p with
      | .single => InstructionSet.singlePrecision
      | .double => InstructionSet.doublePrecision).handlers := by
    cases p <;> rcases o with _ | _ | _ | _ | _ | ⟨_ | _, _ | _⟩ | (_ | _) <;>
      simp [InstructionSet.singlePrecision, InstructionSet.doublePrecision, Exec.singleHandlers,
        Exec.doubleHandlers, mnemonic, stem, handler, body]
  refine DispatchTable.handler?_of_mem DispatchTable.build_standard ?_ hmem
  cases p <;> simp [InstructionSet.standard]

/-- What is finished is delivered with a canonical result, whatever NaN the host gives. -/
theorem finish_computed (o : ArithmeticOp) (nan : NaN p) (rd : Nat) (x : Nat → FloatBits p) :
    Exec.finish p rd (o.operands x) (o.computed nan x) =
      Exec.deliver p rd (resultFlags (o.operands x) (o.result x)) (o.result x) := by
  rw [Exec.finish, canonical_computed, resultFlags_computed]

/-- A quotient is delivered like the other results, although by zero it is written as it is. -/
theorem divide_computed (nan : NaN p) (rd : Nat) (x : Nat → FloatBits p) :
    (if dividesByZero (x 0) (x 1) then Exec.deliver p rd .divideByZero ((x 0).div nan (x 1))
      else Exec.finish p rd [x 0, x 1] ((x 0).div nan (x 1))) =
      Exec.deliver p rd (div.flags x) (div.result x) := by
  rw [flags]
  split
  case isTrue hzero => rw [result_div_of_dividesByZero nan x hzero]
  case isFalse => exact div.finish_computed nan rd x

theorem body_eq_ok_iff : o.body p inst h = .ok () h' ↔ ∃ rd src, Exec.Names inst o.arity rd src ∧
    (o.isRounded → inst.HasRounding (o.arity + 1) h) ∧
    Exec.deliver p rd (o.flags (h.numbers p src)) (o.result (h.numbers p src)) h = .ok () h' := by
  have hfinish (hflags : ∀ x : Nat → FloatBits p,
      o.flags x = resultFlags (o.operands x) (o.result x)) (rd : Nat) (x : Nat → FloatBits p) :
      Exec.deliver p rd (o.flags x) (o.result x) =
        Exec.finish p rd (o.operands x) (o.computed (h.nans h.cycle p) x) := by
    rw [finish_computed, hflags]
  cases o with
  | add | sub | mul =>
    simp only [isRounded, true_implies, hfinish fun _ => rfl]
    exact Exec.floatBinary_eq_ok_iff
  | div =>
    simp only [isRounded, true_implies, ← divide_computed (h.nans h.cycle p)]
    exact Exec.floatDivide_eq_ok_iff
  | sqrt =>
    simp only [isRounded, true_implies, hfinish fun _ => rfl]
    exact Exec.floatSqrt_eq_ok_iff
  | fused =>
    simp only [isRounded, true_implies, hfinish fun _ => rfl]
    exact Exec.floatFused_eq_ok_iff
  | extremum =>
    simp only [isRounded, Bool.false_eq_true, false_implies, true_and, result_extremum]
    exact Exec.floatExtremum_eq_ok_iff

/-- The instruction names registers for its result and its operands, its rounding mode exists, and
the registers are wide enough. -/
structure Takes (o : ArithmeticOp) (p : Precision) (inst : Instruction) (h : Hart) (rd : Nat)
    (src : Nat → Nat) : Prop where
  names : Exec.Names inst o.arity rd src
  rounding : o.isRounded → inst.HasRounding (o.arity + 1) h
  wide : p = .double → h.regs.floats.precision = .double

/-- An instruction is carried out if it has all that it takes, and then it accrues the flags and
writes the result. -/
theorem handler_eq_ok_iff : o.handler p inst h = .ok () h' ↔ ∃ rd src, o.Takes p inst h rd src ∧
    h' = { h.accrue (o.flags (h.numbers p src)).toWord with
      regs := { h.regs with
        floats := h.regs.floats.write p rd (o.result (h.numbers p src)) } } := by
  have hbody (hwide : p = .double → h.regs.floats.precision = .double) :
      o.body p inst h = .ok () h' ↔ ∃ rd src, o.Takes p inst h rd src ∧
        h' = { h.accrue (o.flags (h.numbers p src)).toWord with
          regs := { h.regs with
            floats := h.regs.floats.write p rd (o.result (h.numbers p src)) } } := by
    rw [body_eq_ok_iff]
    constructor
    · rintro ⟨rd, src, hnames, hrounding, hfinish⟩
      rw [Exec.deliver_eq] at hfinish
      cases hfinish
      exact ⟨rd, src, ⟨hnames, hrounding, hwide⟩, rfl⟩
    · rintro ⟨rd, src, htakes, rfl⟩
      exact ⟨rd, src, htakes.names, htakes.rounding, Exec.deliver_eq ..⟩
  cases p with
  | single => exact hbody nofun
  | double =>
    rw [handler, Exec.wide_eq_ok_iff]
    constructor
    · rintro ⟨hdouble, hok⟩
      exact (hbody fun _ => hdouble).mp hok
    · rintro ⟨rd, src, htakes, heq⟩
      exact ⟨htakes.wide rfl, (hbody htakes.wide).mpr ⟨rd, src, htakes, heq⟩⟩

/-- Registers that are wide enough for the instruction are wide enough for its result. -/
theorem Takes.width_le (htakes : o.Takes p inst h rd src) :
    p.width ≤ h.regs.floats.precision.width := by
  cases p with
  | single => cases h.regs.floats.precision <;> decide
  | double => rw [htakes.wide rfl]

/-- The invalid flag of the arithmetic instructions. It is raised if the standard asks for it, which
is for a signaling operand and for an operation that has no result, unless zero is multiplied by
infinity and a quiet NaN added to the product. And each instruction that has all that it takes is
carried out and accrues the flag in just this case. -/
theorem invalid_iff (p : Precision) (o : ArithmeticOp) :
    (∀ x : Nat → FloatBits p,
      ((o.flags x).contains .invalid = true ↔ o.RequiresInvalid x) ↔ ¬o.Overlooked x) ∧
    ∀ (inst : Instruction) (h : Hart) (rd : Nat) (src : Nat → Nat), o.Takes p inst h rd src →
      ∃ f h', DispatchTable.standard.handler? (o.mnemonic p) = some f ∧ f inst h = .ok () h' ∧
        h'.csrs.raw Csr.fcsr = h.csrs.raw Csr.fcsr ||| (o.flags (h.numbers p src)).toWord ∧
        (h'.invalidAccrued = true ↔ h.invalidAccrued = true ∨
          o.RequiresInvalid (h.numbers p src) ∧ ¬o.Overlooked (h.numbers p src)) := by
  refine ⟨fun x => ?_, fun inst h rd src htakes => ?_⟩
  · have hrequired : o.Overlooked x → o.RequiresInvalid x := fun h => .inr (overlooked_iff.mp h).1
    rw [contains_invalid_flags]
    by_cases hoverlooked : o.Overlooked x
    · simp [hoverlooked, hrequired hoverlooked]
    · simp [hoverlooked]
  · refine ⟨o.handler p, _, o.handler?_eq p, handler_eq_ok_iff.mpr ⟨rd, src, htakes, rfl⟩,
      h.raw_fcsr_accrue _, ?_⟩
    rw [← contains_invalid_flags]
    exact h.invalidAccrued_accrue _

/-- A hart with these numbers in its registers 1 to 3. -/
def withSingles (x y z : FloatBits .single) : Hart :=
  { regs := { floats :=
      ((({} : FloatRegisters).write .single 1 x).write .single 2 y).write .single 3 z } }

/-- A hart with zero, infinity and a quiet NaN. -/
def exceptional : Hart := withSingles 0x00000000#32 0x7F800000#32 0x7FC00000#32

/-- The product of zero and infinity raises the flag. -/
theorem invalid_of_product : ∃ f h', DispatchTable.standard.handler? "fmul.s" = some f ∧
    f (.structured "fmul.s" ["ft0", "ft1", "ft2"]) exceptional = .ok () h' ∧
    h'.invalidAccrued = true := by
  obtain ⟨-, hinstructions⟩ := invalid_iff .single .mul
  have htakes : mul.Takes .single (.structured "fmul.s" ["ft0", "ft1", "ft2"])
      exceptional 0 (· + 1) :=
    ⟨⟨rfl, fun | 0, _ => rfl | 1, _ => rfl⟩, fun _ => ⟨7, .nearestEven, rfl, rfl⟩, nofun⟩
  obtain ⟨f, h', hf, hok, -, hflag⟩ := hinstructions _ exceptional 0 (· + 1) htakes
  exact ⟨f, h', hf, hok, hflag.mpr (.inr ⟨.inr (.inl ⟨by decide, by decide⟩), nofun⟩)⟩

/-- So not every instruction raises the flag whenever the standard asks for it. -/
theorem not_always_invalid :
    ¬ ∀ (p : Precision) (o : ArithmeticOp) (inst : Instruction) (f : Handler) (h h' : Hart)
      (rd : Nat) (src : Nat → Nat), (∀ greater, o ≠ .extremum greater) →
      DispatchTable.standard.handler? (o.mnemonic p) = some f → f inst h = .ok () h' →
      Exec.Names inst o.arity rd src →
      (h'.invalidAccrued = true ↔
        h.invalidAccrued = true ∨ o.RequiresInvalid (h.numbers p src)) := by
  intro hall
  have htakes : (fused false false).Takes .single
      (.structured "fmadd.s" ["ft0", "ft1", "ft2", "ft3"]) exceptional 0 (· + 1) :=
    ⟨⟨rfl, fun | 0, _ => rfl | 1, _ => rfl | 2, _ => rfl⟩, fun _ => ⟨7, .nearestEven, rfl, rfl⟩,
      nofun⟩
  have hproduct : ZeroTimesInfinity (exceptional.numbers .single (· + 1) 0)
      (exceptional.numbers .single (· + 1) 1) := .inl ⟨by decide, by decide⟩
  have hok := handler_eq_ok_iff.mpr ⟨0, (· + 1), htakes, rfl⟩
  have hflag := (hall .single (.fused false false) _ _ exceptional _ 0 (· + 1) nofun
    (handler?_eq _ _) hok htakes.names).mpr (.inr (.inr (.inl hproduct)))
  rcases (Hart.invalidAccrued_accrue _ _).mp hflag with hbefore | hraised
  · exact absurd hbefore (by decide)
  · exact ((contains_invalid_flags _ _).mp hraised).2 ⟨hproduct, by decide, by decide⟩

/-- The lesser and the greater of two patterns. Neither depends on the order of the operands. If
both operands are numbers, then the two are the operands themselves, in one order or the other, and
the lesser comes before both and the greater after both in the order of the values, in which the
negative zero is below the positive one. One NaN gives way to the other operand, and two to the
canonical NaN. And each instruction that has all that it takes is carried out, writes the number and
accrues the invalid flag if an operand is a signaling NaN, and no other flag. -/
theorem extremum_laws :
    (∀ (p : Precision) (x y : FloatBits p),
      (∀ greater, x.extremum greater y = y.extremum greater x) ∧
      (¬x.isNaN → ¬y.isNaN → Extrema x y (x.extremum false y) (x.extremum true y)) ∧
      ∀ greater, (¬x.isNaN → y.isNaN → x.extremum greater y = x) ∧
        (x.isNaN → ¬y.isNaN → x.extremum greater y = y) ∧
        (x.isNaN → y.isNaN → x.extremum greater y = canonicalNaN p)) ∧
    ∀ (p : Precision) (greater : Bool) (inst : Instruction) (h : Hart) (rd : Nat) (src : Nat → Nat)
      (x y : FloatBits p), (extremum greater).Takes p inst h rd src →
      h.regs.floats.read p (src 0) = x → h.regs.floats.read p (src 1) = y →
      ∃ f h', DispatchTable.standard.handler? ((extremum greater).mnemonic p) = some f ∧
        f inst h = .ok () h' ∧ h'.regs.floats.read p rd = x.extremum greater y ∧
        h'.csrs.raw Csr.fcsr = h.csrs.raw Csr.fcsr |||
          (FloatFlags.when (x.isSignaling || y.isSignaling) .invalid).toWord ∧
        (h'.invalidAccrued = true ↔
          h.invalidAccrued = true ∨ x.isSignaling = true ∨ y.isSignaling = true) := by
  refine ⟨fun p x y => ⟨(extremum_comm · x y), extrema_extremum, fun greater => ?_⟩,
    fun p greater inst h rd src x y htakes hx hy => ?_⟩
  · refine ⟨fun hx hy => ?_, fun hx hy => ?_, fun hx hy => ?_⟩ <;> simp [FloatBits.extremum, hx, hy]
  · have hflags : (extremum greater).flags (h.numbers p src) =
        .when (x.isSignaling || y.isSignaling) .invalid := by
      rw [← hx, ← hy, ← Bool.or_false (FloatBits.isSignaling (h.regs.floats.read p (src 1)))]
      rfl
    have hcontains : ∀ a b : Bool, (FloatFlags.when (a || b) .invalid).contains .invalid = true ↔
        a = true ∨ b = true := by decide
    refine ⟨(extremum greater).handler p, _, handler?_eq _ p,
      handler_eq_ok_iff.mpr ⟨rd, src, htakes, rfl⟩, ?_, ?_, ?_⟩
    · have hread := h.regs.floats.read_write_self htakes.width_le
        (Instruction.floatRegister_lt htakes.names.1)
        ((extremum greater).result (h.numbers p src))
      rw [← hx, ← hy]
      exact hread.trans (result_extremum ..)
    · rw [← hflags]
      exact h.raw_fcsr_accrue _
    · rw [← hcontains, ← hflags]
      exact h.invalidAccrued_accrue _

/-- A hart with the positive and the negative zero. -/
def signedZeros : Hart := withSingles 0x00000000#32 0x80000000#32 0x00000000#32

/-- The lesser of the two zeros is the negative one, and a NaN gives way to a number. -/
theorem extremum_laws_of_zeros :
    Extrema (p := .single) 0x00000000#32 0x80000000#32 0x80000000#32 0x00000000#32 ∧
    FloatBits.extremum (p := .single) true 0x7FA00000#32 0x00000001#32 = 0x00000001#32 ∧
    ∃ f h', DispatchTable.standard.handler? "fmin.s" = some f ∧
      f (.structured "fmin.s" ["ft0", "ft1", "ft2"]) signedZeros = .ok () h' ∧
      h'.regs.floats.read .single 0 = 0x80000000#32 ∧ ¬h'.invalidAccrued := by
  obtain ⟨hlaws, hinstructions⟩ := extremum_laws
  obtain ⟨-, hzeros, -⟩ := hlaws .single 0x00000000#32 0x80000000#32
  obtain ⟨-, -, hnan⟩ := hlaws .single 0x7FA00000#32 0x00000001#32
  have htakes : (extremum false).Takes .single (.structured "fmin.s" ["ft0", "ft1", "ft2"])
      signedZeros 0 (· + 1) := ⟨⟨rfl, fun | 0, _ => rfl | 1, _ => rfl⟩, nofun, nofun⟩
  obtain ⟨f, h', hf, hok, hread, -, hflag⟩ := hinstructions .single false _ signedZeros 0 (· + 1)
    0x00000000#32 0x80000000#32 htakes rfl rfl
  refine ⟨hzeros (by decide) (by decide), (hnan true).2.1 (by decide) (by decide), f, h', hf, hok,
    hread, fun hraised => ?_⟩
  exact absurd (hflag.mp hraised) (by decide)

end ArithmeticOp
end Riscv32
