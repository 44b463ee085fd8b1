import Riscv32.Proofs.Hart.Arithmetic

/-!
# The discipline of the floating-point unit

Every floating-point instruction that is carried out adds exception flags to those in the status
register and changes no other bit of it, which follows from the shape of the instructions. And each
of them has one of three roles: it computes a number and writes it to a floating-point register, or
moves bits there, or leaves these registers alone. What is computed is a number or the canonical
NaN, whatever the operands are and whichever NaN the host gives, so only the moves let a NaN with
other bits into a register.

## Main definitions

* `Hart.Accrues` — flags have joined those in the status register.
* `FloatComputation` — the instructions that compute a number.
* `Exec.Role` — what a registered instruction does to the floating-point registers.

## Main statements

* `Exec.respects_accrues`, that instructions accrue flags and no more.
* `FloatComputation.delivers`, what a computation writes.
* `FloatComputation.handler_withNaNs`, that it is the same on every host.
* `Exec.float_unit_disciplined`, both, for all floating-point instructions.
-/
namespace Riscv32

open FloatBits

/-! ## Flags -/

namespace Hart

variable {h h' : Hart}

/-- Exception flags have joined those in the status register, and nothing else of it changed. -/
def Accrues (h h' : Hart) : Prop :=
  ∃ flags : FloatFlags, h'.csrs.raw Csr.fcsr = h.csrs.raw Csr.fcsr ||| flags.toWord

theorem Accrues.of_eq (heq : h'.csrs = h.csrs) : Accrues h h' :=
  ⟨.none, by rw [heq]; exact BitVec.or_zero.symm⟩

theorem Accrues.trans {h₁ h₂ h₃ : Hart} (h₁₂ : Accrues h₁ h₂) (h₂₃ : Accrues h₂ h₃) :
    Accrues h₁ h₃ := by
  obtain ⟨a, ha⟩ := h₁₂
  obtain ⟨b, hb⟩ := h₂₃
  have hunion : (a ∪ b).toWord = a.toWord ||| b.toWord := BitVec.setWidth_or
  exact ⟨a ∪ b, by rw [hb, ha, hunion, BitVec.or_assoc]⟩

/-- Whatever word the flags are taken from, they are its low five bits. -/
theorem accrues_accrue (h : Hart) (w : Word) : Accrues h (h.accrue w) := by
  have hlow : w &&& BitField.floatFlags.mask = (FloatFlags.mk (w.setWidth 5)).toWord := by
    apply BitVec.eq_of_getLsbD_eq
    intro i hi
    rw [BitVec.getLsbD_and, BitField.getLsbD_mask, FloatFlags.toWord, BitVec.getLsbD_setWidth,
      BitVec.getLsbD_setWidth, BitField.floatFlags]
    cases w.getLsbD i <;> simp [hi]
  rw [accrue]
  split
  case isTrue => exact .of_eq rfl
  case isFalse =>
    refine ⟨⟨w.setWidth 5⟩, ?_⟩
    simp only [Csr.Store.raw_setRaw, if_true]
    rw [hlow]

/-- The dynamic rounding mode is in other bits. -/
theorem Accrues.dynamicRounding (haccrues : Accrues h h') :
    h'.dynamicRounding = h.dynamicRounding := by
  obtain ⟨flags, hraw⟩ := haccrues
  have hzero : ∀ b : BitVec 5, b.setWidth 32 >>> 5 = 0#32 := by decide
  rw [Hart.dynamicRounding, Hart.dynamicRounding, hraw, BitField.get, BitField.get,
    BitField.roundingMode, BitVec.ushiftRight_or_distrib, FloatFlags.toWord, hzero, BitVec.or_zero]

end Hart

namespace Exec

theorem respects_accrues : Respects .none Hart.Accrues where
  refl _ := .of_eq rfl
  trans := Hart.Accrues.trans
  markRead _ _ := .of_eq rfl
  search _ _ _ _ := .of_eq rfl
  reservation := False.elim
  syscall _ _ := .of_eq rfl
  regs _ _ := .of_eq rfl
  accrue := Hart.accrues_accrue
  reserve := False.elim
  waiting := False.elim
  write _ _ _ := .of_eq rfl
  pc _ _ := .of_eq rfl
  writeCsr := False.elim
  halt := False.elim
  machineReturn := False.elim

/-! ## Registers -/

/-- The floating-point registers of the two harts are the same. -/
def SameFloats (h h' : Hart) : Prop := h'.regs.floats = h.regs.floats

theorem unseen_sameFloats (drops : Prop) : Unseen drops SameFloats where
  refl _ := rfl
  trans h₁₂ h₂₃ := h₂₃.trans h₁₂
  markRead _ _ := rfl
  search _ _ _ _ := rfl
  reservation _ _ := rfl
  syscall _ _ := rfl

/-- The action leaves the floating-point registers alone. -/
def KeepsFloats {α : Type} (x : Exec α) : Prop := Keeps SameFloats x

namespace KeepsFloats

variable {α β : Type} {x : Exec α} {f : α → Exec β} {p : Precision} {handler : Handler}

theorem bind (hx : KeepsFloats x) (hf : ∀ a, KeepsFloats (f a)) : KeepsFloats (x >>= f) :=
  Keeps.bind (fun h₁₂ h₂₃ => h₂₃.trans h₁₂) hx hf

theorem after (hx : Checks .none x) (hf : ∀ a, KeepsFloats (f a)) : KeepsFloats (x >>= f) :=
  bind (hx.keeps (unseen_sameFloats _)) hf

theorem writeX (i : Nat) (v : Word) : KeepsFloats (writeX i v) := by
  intro h
  change (h.regs.write i v).floats = h.regs.floats
  rw [RegisterFile.write]
  split <;> rfl

theorem accrue (flags : FloatFlags) : KeepsFloats (accrue flags) := fun h =>
  congrArg RegisterFile.floats (h.regs_accrue flags.toWord)

theorem store (addr : Word) (count v : Nat) : KeepsFloats (store addr count v) := by
  intro h
  rw [Exec.store, stateAfter_access]
  rfl

theorem floatCompare (c : Comparison) (inst : Instruction) : KeepsFloats (floatCompare p c inst) :=
  after (.operand _) fun _ => after (.operand _) fun _ => after (.readF _ _) fun _ =>
    after (.operand _) fun _ => after (.readF _ _) fun _ => bind (accrue _) fun _ => writeX _ _

theorem floatClassify (inst : Instruction) : KeepsFloats (floatClassify p inst) :=
  after (.operand _) fun _ => after (.operand _) fun _ => after (.readF _ _) fun _ => writeX _ _

theorem floatToInteger (convert : FloatBits p → RoundingMode → Word × FloatFlags)
    (inst : Instruction) : KeepsFloats (floatToInteger p convert inst) :=
  after (.operand _) fun _ => after (.operand _) fun _ => after (.readF _ _) fun _ =>
    after (.rounding _ _) fun _ => bind (accrue _) fun _ => writeX _ _

theorem floatToBits (inst : Instruction) : KeepsFloats (floatToBits inst) :=
  after (.operand _) fun _ => after (.operand _) fun _ => after (.readF _ _) fun _ => writeX _ _

theorem floatStore (inst : Instruction) : KeepsFloats (floatStore p inst) :=
  after (.operand _) fun _ => after (.readF _ _) fun _ => after (.effectiveAddress _) fun _ =>
    store _ _ _

theorem wide (hkeeps : ∀ inst, KeepsFloats (handler inst)) (inst : Instruction) :
    KeepsFloats (wide handler inst) := after (.needs _ _) fun _ => hkeeps inst

end KeepsFloats

/-! ## Results -/

variable {p q : Precision} {inst : Instruction} {h h' : Hart}

/-- A conversion from an integer that is carried out has all that it takes. -/
theorem floatOfInteger_eq_ok {value : Word → Int}
    (hok : floatOfInteger p value inst h = .ok () h') :
    ∃ rd src, inst.floatRegister 0 = .ok rd ∧ inst.register 1 = .ok src ∧
      inst.HasRounding 2 h := by
  simp only [floatOfInteger, operand_bind_eq_ok_iff, readX_bind, rounding_bind_eq_ok_iff] at hok
  obtain ⟨rd, hrd, src, hsrc, hmode, -⟩ := hok
  exact ⟨rd, src, hrd, hsrc, hmode⟩

/-- A conversion from the other precision that is carried out has all that it takes. -/
theorem floatConvert_eq_ok (hok : floatConvert p q inst h = .ok () h') :
    ∃ rd src, inst.floatRegister 0 = .ok rd ∧ inst.floatRegister 1 = .ok src ∧
      inst.HasRounding 2 h := by
  simp only [floatConvert, operand_bind_eq_ok_iff, readF_bind, rounding_bind_eq_ok_iff] at hok
  obtain ⟨rd, hrd, src, hsrc, hmode, -⟩ := hok
  exact ⟨rd, src, hrd, hsrc, hmode⟩

end Exec

namespace ConversionOp

variable {o : ConversionOp} {inst : Instruction} {h h' : Hart}

theorem exists_operands (hok : o.handler inst h = .ok () h') : ∃ rd src,
    inst.floatRegister 0 = .ok rd ∧ o.source inst = .ok src ∧ inst.HasRounding 2 h ∧
      (o.wide → h.regs.floats.precision = .double) := by
  cases o with
  | ofInteger p signed =>
    cases p with
    | single =>
      obtain ⟨rd, src, hrd, hsrc, hmode⟩ := Exec.floatOfInteger_eq_ok hok
      exact ⟨rd, src, hrd, hsrc, hmode, nofun⟩
    | double =>
      obtain ⟨hdouble, hrest⟩ := Exec.wide_eq_ok_iff.mp hok
      obtain ⟨rd, src, hrd, hsrc, hmode⟩ := Exec.floatOfInteger_eq_ok hrest
      exact ⟨rd, src, hrd, hsrc, hmode, fun _ => hdouble⟩
  | narrow | widen =>
    obtain ⟨hdouble, hrest⟩ := Exec.wide_eq_ok_iff.mp hok
    obtain ⟨rd, src, hrd, hsrc, hmode⟩ := Exec.floatConvert_eq_ok hrest
    exact ⟨rd, src, hrd, hsrc, hmode, fun _ => hdouble⟩

/-- No conversion gives a NaN other than the canonical one. -/
theorem canonical_result (o : ConversionOp) (x : o.Operand) (hnan : (o.result x).isNaN) :
    o.result x = canonicalNaN o.target := by
  cases o with
  | ofInteger p signed => exact absurd hnan (ne_true_of_eq_false (isNaN_round ..))
  | narrow | widen => exact eq_canonicalNaN_of_canonical hnan

end ConversionOp

namespace Hart

/-- The hart on a host that gives these NaNs. -/
def withNaNs (h : Hart) (nans : Counter → (p : Precision) → NaN p) : Hart := { h with nans }

theorem accrue_withNaNs (h : Hart) (nans : Counter → (p : Precision) → NaN p) (flags : Word) :
    (h.withNaNs nans).accrue flags = (h.accrue flags).withNaNs nans := by
  rw [accrue, accrue]
  split <;> rfl

end Hart

/-- The instructions that compute a number and write it to a floating-point register. -/
inductive FloatComputation
  | arithmetic (p : Precision) (o : ArithmeticOp)
  | conversion (o : ConversionOp)

namespace FloatComputation

variable {c : FloatComputation} {inst : Instruction} {h h' : Hart}

/-- The name of the instruction. -/
def mnemonic : FloatComputation → String
  | arithmetic p o => o.mnemonic p
  | conversion o => o.mnemonic

/-- What carries the instruction out. -/
def handler : FloatComputation → Handler
  | arithmetic p o => o.handler p
  | conversion o => o.handler

/-- The precision of the result. -/
def target : FloatComputation → Precision
  | arithmetic p _ => p
  | conversion o => o.target

/-- A register gets a number or the canonical NaN, with zeros above it. -/
def Delivers (q : Precision) (inst : Instruction) (h h' : Hart) : Prop :=
  ∃ rd, ∃ y : FloatBits q, inst.floatRegister 0 = .ok rd ∧
    h'.regs.floats = h.regs.floats.write q rd y ∧
    h'.regs.floats.readBits rd = y.setWidth 64 ∧ (y.isNaN → y = canonicalNaN q)

/-- A register of the file that gets a number holds its bits. -/
theorem Delivers.of_write {q : Precision} {rd : Nat} {y : FloatBits q}
    (hrd : inst.floatRegister 0 = .ok rd) (hwidth : q.width ≤ h.regs.floats.precision.width)
    (hfloats : h'.regs.floats = h.regs.floats.write q rd y)
    (hcanonical : y.isNaN → y = canonicalNaN q) : Delivers q inst h h' := by
  refine ⟨rd, y, hrd, hfloats, ?_, hcanonical⟩
  rw [hfloats, h.regs.floats.readBits_write_self hwidth (Instruction.floatRegister_lt hrd)]

/-- An instruction that is carried out delivers its result. -/
theorem delivers (hok : c.handler inst h = .ok () h') : Delivers c.target inst h h' := by
  cases c with
  | arithmetic p o =>
    obtain ⟨rd, src, htakes, rfl⟩ := ArithmeticOp.handler_eq_ok_iff.mp hok
    exact .of_write htakes.names.1 htakes.width_le rfl (o.canonical_result _)
  | conversion o =>
    obtain ⟨rd, src, hrd, hsrc, hmode, hwide⟩ := o.exists_operands hok
    rw [handler, ConversionOp.eq_ok hrd hsrc hmode hwide] at hok
    cases hok
    exact .of_write hrd (ConversionOp.width_target_le hwide) rfl (o.canonical_result _)

/-- A computation that is carried out is carried out on every host, and does the same there. -/
theorem handler_withNaNs (nans : Counter → (p : Precision) → NaN p)
    (hok : c.handler inst h = .ok () h') :
    c.handler inst (h.withNaNs nans) = .ok () (h'.withNaNs nans) := by
  cases c with
  | arithmetic p o =>
    obtain ⟨rd, src, htakes, rfl⟩ := ArithmeticOp.handler_eq_ok_iff.mp hok
    refine ArithmeticOp.handler_eq_ok_iff.mpr
      ⟨rd, src, ⟨htakes.names, htakes.rounding, htakes.wide⟩, ?_⟩
    rw [Hart.accrue_withNaNs]
    rfl
  | conversion o =>
    obtain ⟨rd, src, hrd, hsrc, hmode, hwide⟩ := o.exists_operands hok
    rw [handler, ConversionOp.eq_ok hrd hsrc hmode hwide] at hok
    cases hok
    have hmode' : inst.HasRounding 2 (h.withNaNs nans) := hmode
    rw [handler, ConversionOp.eq_ok hrd hsrc hmode' hwide, Hart.accrue_withNaNs]
    rfl

theorem handler?_eq (c : FloatComputation) :
    DispatchTable.standard.handler? c.mnemonic = some c.handler := by
  cases c with
  | arithmetic p o => exact o.handler?_eq p
  | conversion o => exact o.handler?_eq

end FloatComputation

namespace Exec

/-- The instructions that move bits to a floating-point register. -/
def movers : List String :=
  ["flw", "fld", "fmv.w.x", "fsgnj.s", "fsgnjn.s", "fsgnjx.s", "fsgnj.d", "fsgnjn.d", "fsgnjx.d"]

/-- What a registered instruction does to the floating-point registers. -/
inductive Role : String × Handler → Prop
  | computes (c : FloatComputation) : Role (c.mnemonic, c.handler)
  | moves {m : String} {f : Handler} : m ∈ movers → Role (m, f)
  | keeps {m : String} {f : Handler} : (∀ inst, KeepsFloats (f inst)) → Role (m, f)

theorem role_singleHandlers : ∀ r ∈ singleHandlers, Role r := by
  simp only [singleHandlers, List.forall_mem_cons, List.not_mem_nil, false_implies,
    implies_true, and_true]
  exact ⟨.moves (by decide), .keeps .floatStore,
    .computes (.arithmetic .single (.fused false false)),
    .computes (.arithmetic .single (.fused false true)),
    .computes (.arithmetic .single (.fused true false)),
    .computes (.arithmetic .single (.fused true true)),
    .computes (.arithmetic .single .add), .computes (.arithmetic .single .sub),
    .computes (.arithmetic .single .mul), .computes (.arithmetic .single .div),
    .computes (.arithmetic .single .sqrt),
    .moves (by decide), .moves (by decide), .moves (by decide),
    .computes (.arithmetic .single (.extremum false)),
    .computes (.arithmetic .single (.extremum true)),
    .keeps (.floatToInteger _), .keeps (.floatToInteger _), .keeps .floatToBits,
    .keeps .floatClassify, .keeps (.floatCompare _), .keeps (.floatCompare _),
    .keeps (.floatCompare _), .computes (.conversion (.ofInteger .single true)),
    .computes (.conversion (.ofInteger .single false)), .moves (by decide)⟩

theorem role_doubleHandlers : ∀ r ∈ doubleHandlers, Role r := by
  simp only [doubleHandlers, List.forall_mem_cons, List.not_mem_nil, false_implies,
    implies_true, and_true]
  exact ⟨.moves (by decide), .keeps (.wide .floatStore),
    .computes (.arithmetic .double (.fused false false)),
    .computes (.arithmetic .double (.fused false true)),
    .computes (.arithmetic .double (.fused true false)),
    .computes (.arithmetic .double (.fused true true)),
    .computes (.arithmetic .double .add), .computes (.arithmetic .double .sub),
    .computes (.arithmetic .double .mul), .computes (.arithmetic .double .div),
    .computes (.arithmetic .double .sqrt),
    .moves (by decide), .moves (by decide), .moves (by decide),
    .computes (.arithmetic .double (.extremum false)),
    .computes (.arithmetic .double (.extremum true)),
    .computes (.conversion .narrow), .computes (.conversion .widen),
    .keeps (.wide (.floatCompare _)), .keeps (.wide (.floatCompare _)),
    .keeps (.wide (.floatCompare _)), .keeps (.wide .floatClassify),
    .keeps (.wide (.floatToInteger _)), .keeps (.wide (.floatToInteger _)),
    .computes (.conversion (.ofInteger .double true)),
    .computes (.conversion (.ofInteger .double false))⟩

/-- The discipline of the floating-point unit. An instruction of either precision that is carried
out leaves in the status register what was there, joined with exception flags in the low five bits,
so that no flag is cleared and the rounding mode stays. It moves bits to a floating-point register,
or computes a number, or leaves these registers alone. A computation writes to the register that it
names a number or the canonical NaN of its precision, with zeros above a single-precision one. And
it does the same on every host, whichever NaNs the arithmetic of that host gives. -/
theorem float_unit_disciplined :
    (∀ r ∈ InstructionSet.singlePrecision.handlers ++ InstructionSet.doublePrecision.handlers,
      ∀ (inst : Instruction) (h h' : Hart), r.2 inst h = .ok () h' →
        (∃ flags : FloatFlags, h'.csrs.raw Csr.fcsr = h.csrs.raw Csr.fcsr ||| flags.toWord) ∧
        h'.dynamicRounding = h.dynamicRounding ∧
        (r.1 ∈ movers ∨ (∃ c : FloatComputation, r = (c.mnemonic, c.handler)) ∨
          h'.regs.floats = h.regs.floats)) ∧
    ∀ (c : FloatComputation) (inst : Instruction) (h h' : Hart),
      DispatchTable.standard.handler? c.mnemonic = some c.handler ∧
      (c.handler inst h = .ok () h' →
        (∃ (rd : Nat) (y : FloatBits c.target), inst.floatRegister 0 = .ok rd ∧
          h'.regs.floats = h.regs.floats.write c.target rd y ∧
          h'.regs.floats.readBits rd = y.setWidth 64 ∧
          (y.isNaN → y = canonicalNaN c.target)) ∧
        ∀ nans, c.handler inst (h.withNaNs nans) = .ok () (h'.withNaNs nans)) := by
  refine ⟨fun r hr inst h h' hok => ?_, fun c inst h h' => ⟨c.handler?_eq, fun hok => ?_⟩⟩
  case refine_2 =>
    exact ⟨FloatComputation.delivers hok,
      fun nans => FloatComputation.handler_withNaNs nans hok⟩
  have hacts : Acts .none (r.2 inst) := by
    rcases List.mem_append.mp hr with hr | hr
    · exact acts_singleHandlers r hr inst
    · exact acts_doubleHandlers r hr inst
  have hrole : Role r := by
    rcases List.mem_append.mp hr with hr | hr
    · exact role_singleHandlers r hr
    · exact role_doubleHandlers r hr
  have haccrues : h.Accrues h' := (hacts.keeps respects_accrues).of_ok hok
  refine ⟨haccrues, haccrues.dynamicRounding, ?_⟩
  cases hrole with
  | computes c => exact .inr (.inl ⟨c, rfl⟩)
  | moves hmover => exact .inl hmover
  | keeps hkeeps => exact .inr (.inr ((hkeeps inst).of_ok hok))

/-- A hart with minus one in a register, on a host whose NaNs are negative. -/
def minusOne : Hart :=
  (ArithmeticOp.withSingles 0xBF800000#32 0#32 0#32).withNaNs fun _ p =>
    ⟨(canonicalNaN p).negate, by cases p <;> decide⟩

/-- The square root of minus one is the canonical NaN, although the host gives another one, and it
accrues flags. -/
theorem float_unit_disciplined_of_sqrt : ∃ h',
    floatSqrt .single (.structured "fsqrt.s" ["ft0", "ft1"]) minusOne = .ok () h' ∧
    (∃ flags : FloatFlags,
      h'.csrs.raw Csr.fcsr = minusOne.csrs.raw Csr.fcsr ||| flags.toWord) ∧
    h'.regs.floats.readBits 0 = (canonicalNaN .single).setWidth 64 ∧
    floatSqrt .single (.structured "fsqrt.s" ["ft0", "ft1"])
      (minusOne.withNaNs fun _ => .canonical) = .ok () (h'.withNaNs fun _ => .canonical) := by
  obtain ⟨hregistered, hcomputed⟩ := float_unit_disciplined
  have htakes : ArithmeticOp.sqrt.Takes .single (.structured "fsqrt.s" ["ft0", "ft1"])
      minusOne 0 (· + 1) :=
    ⟨⟨rfl, fun | 0, _ => rfl⟩, fun _ => ⟨7, .nearestEven, rfl, rfl⟩, nofun⟩
  have hok := ArithmeticOp.handler_eq_ok_iff.mpr ⟨0, (· + 1), htakes, rfl⟩
  have hmem : ("fsqrt.s", floatSqrt .single) ∈
      InstructionSet.singlePrecision.handlers ++ InstructionSet.doublePrecision.handlers := by
    simp [InstructionSet.singlePrecision, singleHandlers]
  obtain ⟨haccrues, -⟩ := hregistered _ hmem _ _ _ hok
  obtain ⟨⟨rd, (y : BitVec 32), hrd, -, hread, hcanonical⟩, hhosts⟩ :=
    (hcomputed (.arithmetic .single .sqrt) _ _ _).2 hok
  obtain rfl : rd = 0 := Except.ok.inj (hrd.symm.trans rfl)
  have hbits : y.setWidth 64 = 0x7FC00000#64 := hread.symm.trans (by decide)
  have hy : y = 0x7FC00000#32 := by simpa using congrArg (BitVec.setWidth 32) hbits
  have hnan : FloatBits.isNaN (p := .single) y = true := by
    rw [hy]
    decide
  exact ⟨_, hok, haccrues, hread.trans (congrArg _ (hcanonical hnan)), hhosts _⟩

end Exec
end Riscv32
