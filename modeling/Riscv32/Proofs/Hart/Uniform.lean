import Riscv32.Proofs.Hart.Effect
import Riscv32.Proofs.Instruction.Written

/-!
# What instructions see of themselves

An instruction gives its operands by position and kind. What the standard instructions do depends on
nothing else: of two instructions that agree on all operands of a format, one does what the other
does. The only trace of the encoding is in the trap of an illegal instruction. As with the shape of
instructions this is a derivation, here for two actions side by side.

## Main definitions

* `ExecError.isMalformed` — failures for want of an operand.
* `SameOutcome` — the same result, but for the encoding in an illegal instruction.
* `Exec.Matches symbols x y` — the actions take the same steps where the symbols are as given.
* `Exec.Uniform kinds rounded handler` — the same for all instructions that agree on the operands.

## Main statements

* `Exec.Matches.outcome`, actions that match have the same outcome and find all operands.
* `Exec.uniform_registerImmediate` and so on, one for each instruction.
-/
namespace Riscv32

/-- Whether the failure is the want of an operand or of a register. -/
def ExecError.isMalformed : ExecError → Bool
  | .operand _ | .register _ => true
  | _ => false

/-- The same failure, but for the encoding that an illegal instruction carries. -/
inductive SameButEncoding : ExecError → ExecError → Prop
  | refl (e : ExecError) : SameButEncoding e e
  | illegal (v w : Word) :
    SameButEncoding (.trap (.illegalInstruction v)) (.trap (.illegalInstruction w))

/-- The same result on the same hart, but for the encoding that an illegal instruction carries. -/
inductive SameOutcome {α : Type} :
    EStateM.Result ExecError Hart α → EStateM.Result ExecError Hart α → Prop
  | ok (a : α) (h : Hart) : SameOutcome (.ok a h) (.ok a h)
  | error {e e' : ExecError} (he : SameButEncoding e e') (h : Hart) :
    SameOutcome (.error e h) (.error e' h)

namespace Exec

variable {α β : Type} {symbols : Symbols} {kinds : List OperandKind} {rounded : Bool}
  {i j : Instruction} {index : Nat}

/-- The same outcome, after which the condition holds unless it is a failure, and no failure for
want of an operand. -/
inductive Outcome (after : Hart → Prop) :
    EStateM.Result ExecError Hart α → EStateM.Result ExecError Hart α → Prop
  | ok (a : α) {h : Hart} (hafter : after h) : Outcome after (.ok a h) (.ok a h)
  | error {e e' : ExecError} (he : SameButEncoding e e') (hformed : e.isMalformed = false)
    (h : Hart) : Outcome after (.error e h) (.error e' h)

theorem Outcome.same {after : Hart → Prop} {r r' : EStateM.Result ExecError Hart α}
    (hr : Outcome after r r') : SameOutcome r r' := by
  cases hr with
  | ok a _ => exact .ok a _
  | error he _ h => exact .error he h

theorem Outcome.formed {after : Hart → Prop} {r' : EStateM.Result ExecError Hart α}
    {e : ExecError} {h : Hart} (hr : Outcome after (.error e h) r') : e.isMalformed = false := by
  cases hr with
  | error _ hformed _ => exact hformed

theorem Outcome.bind {after after' : Hart → Prop} {x y : Exec α} {f g : α → Exec β} {h : Hart}
    (hxy : Outcome after (x h) (y h)) (hfg : ∀ a h, after h → Outcome after' (f a h) (g a h)) :
    Outcome after' ((x >>= f) h) ((y >>= g) h) := by
  simp only [Bind.bind, EStateM.bind]
  generalize x h = r, y h = r' at hxy
  cases hxy with
  | ok a hafter => exact hfg a _ hafter
  | error he hformed h' => exact .error he hformed h'

/-- Two actions that take the same steps, where the symbols are as given. Steps that look at the
instruction find the same in both. -/
inductive Matches (symbols : Symbols) : {α : Type} → Exec α → Exec α → Prop
  | pure {α : Type} (a : α) : Matches symbols (Pure.pure a : Exec α) (Pure.pure a)
  | bind {α β : Type} {x y : Exec α} {f g : α → Exec β} :
    Matches symbols x y → (∀ a, Matches symbols (f a) (g a)) → Matches symbols (x >>= f) (y >>= g)
  | operand {α : Type} {x y : Except OperandError α} {a : α} : x = .ok a → y = .ok a →
    Matches symbols (liftM x : Exec α) (liftM y)
  | immediate {i j : Instruction} {index : Nat} {v : Word} : i.immediate index symbols = .ok v →
    j.immediate index symbols = .ok v → Matches symbols (immediate i index) (immediate j index)
  | target {i j : Instruction} {index : Nat} {v : Word} :
    (∀ pc, i.target index pc symbols = .ok (pc + v)) →
    (∀ pc, j.target index pc symbols = .ok (pc + v)) →
    Matches symbols (target i index) (target j index)
  | rounding {i j : Instruction} {index : Nat} {mode : BitVec 3} :
    i.roundingMode index = .ok mode → j.roundingMode index = .ok mode →
    Matches symbols (rounding i index) (rounding j index)
  | needs (p : Precision) (i j : Instruction) : Matches symbols (needs p i) (needs p j)
  | hostNaN (p : Precision) : Matches symbols (hostNaN p) (hostNaN p)
  | trap {α : Type} (t : Trap) : Matches symbols (trap t : Exec α) (trap t)
  | unimplemented (mnemonic : String) :
    Matches symbols (throw (.unimplemented mnemonic) : Exec Unit) (throw (.unimplemented mnemonic))
  | readX (i : Nat) : Matches symbols (readX i) (readX i)
  | readF (p : Precision) (i : Nat) : Matches symbols (readF p i) (readF p i)
  | readPc : Matches symbols (do return (← get).pc : Exec Word) (do return (← get).pc)
  | readInstructionPc :
    Matches symbols (do return (← get).instructionPc : Exec Word) (do return (← get).instructionPc)
  | readCsr (addr : Word) : Matches symbols (readCsr addr) (readCsr addr)
  | load (addr : Word) (count : Nat) : Matches symbols (load addr count) (load addr count)
  | store (addr : Word) (count v : Nat) : Matches symbols (store addr count v) (store addr count v)
  | jump (target : Word) : Matches symbols (jump target) (jump target)
  | writeX (i : Nat) (v : Word) : Matches symbols (writeX i v) (writeX i v)
  | writeF (p : Precision) (i : Nat) (x : FloatBits p) :
    Matches symbols (writeF p i x) (writeF p i x)
  | writeCsr (addr v : Word) : Matches symbols (writeCsr addr v) (writeCsr addr v)
  | accrue (flags : FloatFlags) : Matches symbols (accrue flags) (accrue flags)
  | reserve (addr : Word) : Matches symbols (modify fun h : Hart => h.reserve addr : Exec Unit)
    (modify fun h : Hart => h.reserve addr)
  | takeReservation (addr : Word) : Matches symbols (takeReservation addr) (takeReservation addr)
  | environmentBreak (i j : Instruction) : Matches symbols (environmentBreak i) (environmentBreak j)
  | machineReturn (i j : Instruction) : Matches symbols (machineReturn i) (machineReturn j)
  | waitForInterrupt (i j : Instruction) : Matches symbols (waitForInterrupt i) (waitForInterrupt j)

/-! ## Actions that match -/

/-- The symbols of a space do not depend on its sections. -/
theorem symbol?_of_serves {addr : Word} {m m' : AddressSpace}
    (h : AddressSpace.Serves addr m m') : m'.symbol? = m.symbol? := by
  cases h <;> rfl

theorem symbol?_writeNat (addr : Word) (count v : Nat) (m : AddressSpace) :
    (stateAfter (AddressSpace.writeNat addr count v) m).symbol? = m.symbol? := by
  simp only [stateAfter]
  cases hwrite : AddressSpace.writeNat addr count v m with
  | ok _ m' =>
    obtain ⟨m₁, front, s, t, back, hserves, -, -, -, rfl⟩ := AddressSpace.write_eq_ok hwrite
    have hkept : m₁.symbol? = m.symbol? := symbol?_of_serves hserves
    exact hkept
  | error e m' => exact symbol?_of_serves (AddressSpace.write_eq_error hwrite)

variable {x y : Exec α} {h : Hart}

/-- An access that keeps the symbols keeps them, and fails for no want of an operand. -/
theorem outcome_access {action : Access α}
    (haction : ∀ m, (stateAfter action m).symbol? = m.symbol?)
    (hsymbols : h.memory.symbol? = symbols) :
    Outcome (fun h => h.memory.symbol? = symbols) (access action h) (access action h) := by
  have hafter := (haction h.memory).trans hsymbols
  simp only [stateAfter] at hafter
  unfold access
  cases hres : action h.memory with
  | ok a m =>
    rw [hres] at hafter
    exact .ok a hafter
  | error e m => exact .error (.refl _) rfl _

/-- Two refusals of instructions. -/
theorem outcome_illegal {after : Hart → Prop} (i j : Instruction) (h : Hart) :
    Outcome after ((illegal i : Exec α) h) ((illegal j : Exec α) h) :=
  .error (.illegal _ _) rfl h

theorem immediate_of_eq_ok {v : Word} (hsymbols : h.memory.symbol? = symbols)
    (hi : i.immediate index symbols = .ok v) : immediate i index h = .ok v h := by
  change (liftM (i.immediate index h.memory.symbol?) : Exec Word) h = _
  rw [hsymbols, hi]
  rfl

theorem target_of_eq_ok {v : Word} (hsymbols : h.memory.symbol? = symbols)
    (hi : ∀ pc, i.target index pc symbols = .ok (pc + v)) :
    target i index h = .ok (h.instructionPc + v) h := by
  change (liftM (i.target index h.instructionPc h.memory.symbol?) : Exec Word) h = _
  rw [hsymbols, hi]
  rfl

theorem memory_writeCsr {addr v : Word} {h' : Hart} (hwrite : h.writeCsr addr v = .ok h') :
    h'.memory = h.memory := by
  obtain ⟨-, rfl⟩ := Hart.writeCsr_eq_ok hwrite
  cases (h.csrs.set addr v).1 <;> rfl

theorem outcome_get_bind {after : Hart → Prop} {f g : Hart → Exec α}
    (hfg : Outcome after (f h h) (g h h)) : Outcome after ((get >>= f) h) ((get >>= g) h) := hfg

/-- A rounding mode is the same for both, or makes both of them illegal. -/
theorem outcome_rounding {after : Hart → Prop} {mode : BitVec 3} (hafter : after h)
    (hi : i.roundingMode index = .ok mode) (hj : j.roundingMode index = .ok mode) :
    Outcome after (rounding i index h) (rounding j index h) := by
  have hfield : (liftM (.ok mode : Except OperandError (BitVec 3)) : Exec (BitVec 3)) = pure mode :=
    rfl
  unfold rounding
  rw [hi, hj, hfield, pure_bind, pure_bind]
  refine outcome_get_bind ?_
  cases RoundingMode.resolve? (mode.setWidth 32) h.dynamicRounding with
  | some m => exact .ok m hafter
  | none => exact outcome_illegal i j h

/-- The same part of the hart decides for both whether they are illegal. -/
theorem outcome_ite {after : Hart → Prop} {c : Prop} [Decidable c] {a b : Exec α}
    {i j : Instruction} (hok : ¬ c → Outcome after (a h) (b h)) :
    Outcome after ((if c then illegal i else a : Exec α) h) ((if c then illegal j else b) h) := by
  by_cases hc : c
  · rw [if_pos hc, if_pos hc]
    exact outcome_illegal i j h
  · rw [if_neg hc, if_neg hc]
    exact hok hc

/-- Actions that match have the same outcome, find all their operands and keep the symbols. -/
theorem Matches.outcome (hxy : Matches symbols x y) (hsymbols : h.memory.symbol? = symbols) :
    Outcome (fun h => h.memory.symbol? = symbols) (x h) (y h) := by
  induction hxy generalizing h with
  | pure a => exact .ok a hsymbols
  | bind _ _ ihx ihf => exact (ihx hsymbols).bind fun a _ hafter => ihf a hafter
  | operand hx hy =>
    rw [hx, hy]
    exact .ok _ hsymbols
  | immediate hi hj =>
    rw [immediate_of_eq_ok hsymbols hi, immediate_of_eq_ok hsymbols hj]
    exact .ok _ hsymbols
  | target hi hj =>
    rw [target_of_eq_ok hsymbols hi, target_of_eq_ok hsymbols hj]
    exact .ok _ hsymbols
  | rounding hi hj => exact outcome_rounding hsymbols hi hj
  | needs p i j => exact outcome_ite fun _ => .ok () hsymbols
  | hostNaN p => exact .ok _ hsymbols
  | trap t => exact .error (.refl _) rfl h
  | unimplemented mnemonic => exact .error (.refl _) rfl h
  | readX i => exact .ok _ hsymbols
  | readF p i => exact .ok _ hsymbols
  | readPc => exact .ok _ hsymbols
  | readInstructionPc => exact .ok _ hsymbols
  | readCsr addr =>
    refine outcome_get_bind ?_
    cases h.readCsr addr with
    | ok v => exact .ok v hsymbols
    | error e => exact .error (.refl _) rfl h
  | load addr count =>
    exact outcome_access (fun m => symbol?_of_serves (readNat_serves addr count m)) hsymbols
  | store addr count v => exact outcome_access (symbol?_writeNat addr count v) hsymbols
  | jump target =>
    refine outcome_get_bind ?_
    by_cases ha : target.isAligned
    · rw [Hart.jump, if_pos ha]
      exact .ok () hsymbols
    · rw [Hart.jump, if_neg ha]
      exact .error (.refl _) rfl h
  | writeX i v => exact .ok _ hsymbols
  | writeF p i x => exact .ok _ hsymbols
  | writeCsr addr v =>
    refine outcome_get_bind ?_
    cases hwrite : h.writeCsr addr v with
    | ok h' =>
      have hafter : h'.memory.symbol? = symbols := by
        rw [memory_writeCsr hwrite]
        exact hsymbols
      exact .ok () hafter
    | error e => exact .error (.refl _) rfl h
  | accrue flags =>
    have hafter : (h.accrue flags.toWord).memory.symbol? = symbols := by
      unfold Hart.accrue
      split <;> exact hsymbols
    exact .ok () hafter
  | reserve addr => exact .ok _ hsymbols
  | takeReservation addr => exact .ok _ hsymbols
  | environmentBreak i j =>
    refine outcome_get_bind ?_
    by_cases hd : h.debugger.isSome
    · rw [if_pos hd]
      exact .error (.refl _) rfl h
    · rw [if_neg hd]
      exact .ok () hsymbols
  | machineReturn i j =>
    refine outcome_get_bind ?_
    by_cases hp : h.privilege = .machine
    · rw [if_pos hp, if_pos hp]
      exact .ok () hsymbols
    · rw [if_neg hp, if_neg hp]
      exact outcome_illegal i j h
  | waitForInterrupt i j => exact .ok _ hsymbols

/-! ## Operands -/

section Operands

variable (ha : Instruction.Agree symbols kinds rounded i j)

include ha

theorem matches_register (hk : kinds[index]? = some .integer) :
    Matches symbols (liftM (i.register index)) (liftM (j.register index)) := by
  obtain ⟨v, hi, hj⟩ := ha.operand index _ hk
  exact .operand hi hj

theorem matches_floatRegister (hk : kinds[index]? = some .float) :
    Matches symbols (liftM (i.floatRegister index)) (liftM (j.floatRegister index)) := by
  obtain ⟨v, hi, hj⟩ := ha.operand index _ hk
  exact .operand hi hj

theorem matches_csr (hk : kinds[index]? = some .csr) :
    Matches symbols (liftM (i.csr index)) (liftM (j.csr index)) := by
  obtain ⟨v, hi, hj⟩ := ha.operand index _ hk
  exact .operand hi hj

theorem matches_immediate (hk : kinds[index]? = some .immediate) :
    Matches symbols (immediate i index) (immediate j index) := by
  obtain ⟨v, hi, hj⟩ := ha.operand index _ hk
  exact .immediate hi hj

theorem matches_target (hk : kinds[index]? = some .target) :
    Matches symbols (target i index) (target j index) := by
  obtain ⟨v, hi, hj⟩ := ha.operand index _ hk
  exact .target hi hj

theorem matches_rounding (hrounded : rounded = true) (hindex : kinds.length = index) :
    Matches symbols (rounding i index) (rounding j index) := by
  subst hindex
  obtain ⟨mode, hi, hj⟩ := ha.rounding hrounded
  exact .rounding hi hj

theorem matches_effectiveAddress (hbase : kinds[1]? = some .integer)
    (hoffset : kinds[2]? = some .immediate) :
    Matches symbols (effectiveAddress i) (effectiveAddress j) :=
  .bind (matches_register ha hbase) fun _ => .bind (.readX _) fun _ =>
    .bind (matches_immediate ha hoffset) fun _ => .pure _

theorem matches_alignedAddress (misaligned : Word → Trap) (hk : kinds[1]? = some .integer) :
    Matches symbols (alignedAddress misaligned i) (alignedAddress misaligned j) := by
  refine .bind (matches_register ha hk) fun _ => .bind (.readX _) fun addr => ?_
  by_cases haligned : addr.isAligned
  · rw [if_pos haligned]
    exact .pure addr
  · rw [if_neg haligned]
    exact .trap _

end Operands

/-! ## Integer instructions -/

/-- The action does the same for all instructions that agree on operands of the given kinds. -/
def Uniform (kinds : List OperandKind) (rounded : Bool) (action : Instruction → Exec α) : Prop :=
  ∀ symbols i j, Instruction.Agree symbols kinds rounded i j → Matches symbols (action i) (action j)

theorem uniform_registerImmediate (op : Word → Word → Word) :
    Uniform [.integer, .integer, .immediate] false (registerImmediate op) :=
  fun _ _ _ ha => .bind (matches_register ha rfl) fun _ => .bind (matches_register ha rfl) fun _ =>
    .bind (.readX _) fun _ => .bind (matches_immediate ha rfl) fun _ => .writeX _ _

theorem uniform_registerRegister (op : Word → Word → Word) :
    Uniform [.integer, .integer, .integer] false (registerRegister op) :=
  fun _ _ _ ha => .bind (matches_register ha rfl) fun _ => .bind (matches_register ha rfl) fun _ =>
    .bind (.readX _) fun _ => .bind (matches_register ha rfl) fun _ => .bind (.readX _) fun _ =>
      .writeX _ _

theorem uniform_branch (taken : Word → Word → Bool) :
    Uniform [.integer, .integer, .target] false (branch taken) := by
  intro symbols i j ha
  refine .bind (matches_register ha rfl) fun _ => .bind (.readX _) fun x =>
    .bind (matches_register ha rfl) fun _ => .bind (.readX _) fun y => ?_
  by_cases htaken : taken x y
  · rw [if_pos htaken, if_pos htaken]
    exact .bind (matches_target ha rfl) fun _ => .jump _
  · rw [if_neg htaken, if_neg htaken]
    exact .pure ()

theorem uniform_loadInteger (count : Nat) (extend : Nat → Word) :
    Uniform [.integer, .integer, .immediate] false (loadInteger count extend) :=
  fun _ _ _ ha => .bind (matches_register ha rfl) fun _ =>
    .bind (matches_effectiveAddress ha rfl rfl) fun _ => .bind (.load _ _) fun _ => .writeX _ _

theorem uniform_storeInteger (count : Nat) :
    Uniform [.integer, .integer, .immediate] false (storeInteger count) :=
  fun _ _ _ ha => .bind (matches_register ha rfl) fun _ => .bind (.readX _) fun _ =>
    .bind (matches_effectiveAddress ha rfl rfl) fun _ => .store _ _ _

theorem uniform_loadUpper : Uniform [.integer, .immediate] false loadUpper :=
  fun _ _ _ ha => .bind (matches_register ha rfl) fun _ =>
    .bind (matches_immediate ha rfl) fun _ => .writeX _ _

theorem uniform_addUpperToPc : Uniform [.integer, .immediate] false addUpperToPc :=
  fun _ _ _ ha => .bind (matches_register ha rfl) fun rd =>
    .bind (matches_immediate ha rfl) fun imm =>
      .bind (f := fun pc => writeX rd (pc + imm <<< 12)) .readInstructionPc fun _ => .writeX _ _

theorem uniform_jumpAndLink : Uniform [.integer, .target] false jumpAndLink :=
  fun _ _ _ ha => .bind (matches_register ha rfl) fun rd =>
    .bind (matches_target ha rfl) fun dest =>
    .bind (f := fun link => do jump dest; writeX rd link) .readPc fun _ =>
      .bind (.jump _) fun _ => .writeX _ _

theorem uniform_jumpAndLinkRegister :
    Uniform [.integer, .integer, .immediate] false jumpAndLinkRegister :=
  fun _ _ _ ha => .bind (matches_register ha rfl) fun rd => .bind (matches_register ha rfl) fun _ =>
    .bind (.readX _) fun base => .bind (matches_immediate ha rfl) fun offset =>
      .bind (f := fun link => do jump (base + offset).clearBitZero; writeX rd link) .readPc fun _ =>
        .bind (.jump _) fun _ => .writeX _ _

theorem uniform_idle (kinds : List OperandKind) : Uniform kinds false idle :=
  fun _ _ _ _ => .pure ()

/-! ## Atomic instructions -/

theorem uniform_loadReserved : Uniform [.integer, .integer] false loadReserved :=
  fun _ _ _ ha => .bind (matches_register ha rfl) fun _ =>
    .bind (matches_alignedAddress ha _ rfl) fun _ => .bind (.load _ _) fun _ =>
      .bind (.writeX _ _) fun _ => .reserve _

theorem uniform_storeConditional :
    Uniform [.integer, .integer, .integer] false storeConditional := by
  intro symbols i j ha
  refine .bind (matches_register ha rfl) fun rd =>
    .bind (matches_alignedAddress ha _ rfl) fun addr =>
    .bind (matches_register ha rfl) fun _ => .bind (.readX _) fun v =>
      .bind (.takeReservation _) fun held => ?_
  by_cases hheld : held = true
  · rw [if_pos hheld]
    exact .bind (.store _ _ _) fun _ => .writeX _ _
  · rw [if_neg hheld]
    exact .writeX _ _

theorem uniform_readModifyWrite (op : Word → Word → Word) :
    Uniform [.integer, .integer, .integer] false (readModifyWrite op) :=
  fun _ _ _ ha => .bind (matches_register ha rfl) fun _ =>
    .bind (matches_alignedAddress ha _ rfl) fun _ => .bind (matches_register ha rfl) fun _ =>
      .bind (.readX _) fun _ => .bind (.load _ _) fun _ => .bind (.store _ _ _) fun _ => .writeX _ _

/-! ## Floating-point instructions -/

section Floating

variable (p : Precision)

theorem matches_deliver (rd : Nat) (flags : FloatFlags) (x : FloatBits p) :
    Matches symbols (deliver p rd flags x) (deliver p rd flags x) :=
  .bind (.accrue _) fun _ => .writeF _ _ _

theorem matches_finish (rd : Nat) (operands : List (FloatBits p)) (result : FloatBits p) :
    Matches symbols (finish p rd operands result) (finish p rd operands result) :=
  matches_deliver p _ _ _

theorem uniform_floatBinary (op : FloatBits.NaN p → FloatBits p → FloatBits p → FloatBits p) :
    Uniform [.float, .float, .float] true (floatBinary p op) :=
  fun _ _ _ ha => .bind (matches_floatRegister ha rfl) fun _ =>
    .bind (matches_floatRegister ha rfl) fun _ => .bind (.readF _ _) fun _ =>
      .bind (matches_floatRegister ha rfl) fun _ => .bind (.readF _ _) fun _ =>
        .bind (matches_rounding ha rfl rfl) fun _ => .bind (.hostNaN _) fun _ =>
          matches_finish _ _ _ _

theorem uniform_floatDivide : Uniform [.float, .float, .float] true (floatDivide p) := by
  intro symbols i j ha
  refine .bind (matches_floatRegister ha rfl) fun rd => .bind (matches_floatRegister ha rfl)
    fun _ => .bind (.readF _ _) fun x => .bind (matches_floatRegister ha rfl) fun _ =>
      .bind (.readF _ _) fun y => .bind (matches_rounding ha rfl rfl) fun _ =>
        .bind (.hostNaN _) fun nan => ?_
  by_cases hzero : FloatBits.dividesByZero x y
  · rw [if_pos hzero]
    exact matches_deliver _ _ _ _
  · rw [if_neg hzero]
    exact matches_finish _ _ _ _

theorem uniform_floatSqrt : Uniform [.float, .float] true (floatSqrt p) :=
  fun _ _ _ ha => .bind (matches_floatRegister ha rfl) fun _ =>
    .bind (matches_floatRegister ha rfl) fun _ => .bind (.readF _ _) fun _ =>
      .bind (matches_rounding ha rfl rfl) fun _ => .bind (.hostNaN _) fun _ =>
        matches_finish _ _ _ _

theorem uniform_floatFused (negateProduct negateTerm : Bool) :
    Uniform [.float, .float, .float, .float] true (floatFused p negateProduct negateTerm) :=
  fun _ _ _ ha => .bind (matches_floatRegister ha rfl) fun _ =>
    .bind (matches_floatRegister ha rfl) fun _ => .bind (.readF _ _) fun _ =>
      .bind (matches_floatRegister ha rfl) fun _ => .bind (.readF _ _) fun _ =>
        .bind (matches_floatRegister ha rfl) fun _ => .bind (.readF _ _) fun _ =>
          .bind (matches_rounding ha rfl rfl) fun _ => .bind (.hostNaN _) fun _ =>
            matches_finish _ _ _ _

theorem uniform_floatInjectSign (source : FloatBits.SignSource) :
    Uniform [.float, .float, .float] false (floatInjectSign p source) :=
  fun _ _ _ ha => .bind (matches_floatRegister ha rfl) fun _ =>
    .bind (matches_floatRegister ha rfl) fun _ => .bind (.readF _ _) fun _ =>
      .bind (matches_floatRegister ha rfl) fun _ => .bind (.readF _ _) fun _ => .writeF _ _ _

theorem uniform_floatExtremum (greater : Bool) :
    Uniform [.float, .float, .float] false (floatExtremum p greater) :=
  fun _ _ _ ha => .bind (matches_floatRegister ha rfl) fun _ =>
    .bind (matches_floatRegister ha rfl) fun _ => .bind (.readF _ _) fun _ =>
      .bind (matches_floatRegister ha rfl) fun _ => .bind (.readF _ _) fun _ =>
        matches_deliver _ _ _ _

theorem uniform_floatCompare (c : FloatBits.Comparison) :
    Uniform [.integer, .float, .float] false (floatCompare p c) :=
  fun _ _ _ ha => .bind (matches_register ha rfl) fun _ =>
    .bind (matches_floatRegister ha rfl) fun _ => .bind (.readF _ _) fun _ =>
      .bind (matches_floatRegister ha rfl) fun _ => .bind (.readF _ _) fun _ =>
        .bind (.accrue _) fun _ => .writeX _ _

theorem uniform_floatClassify : Uniform [.integer, .float] false (floatClassify p) :=
  fun _ _ _ ha => .bind (matches_register ha rfl) fun _ =>
    .bind (matches_floatRegister ha rfl) fun _ => .bind (.readF _ _) fun _ => .writeX _ _

theorem uniform_floatToInteger (convert : FloatBits p → RoundingMode → Word × FloatFlags) :
    Uniform [.integer, .float] true (floatToInteger p convert) :=
  fun _ _ _ ha => .bind (matches_register ha rfl) fun _ =>
    .bind (matches_floatRegister ha rfl) fun _ => .bind (.readF _ _) fun _ =>
      .bind (matches_rounding ha rfl rfl) fun _ => .bind (.accrue _) fun _ => .writeX _ _

theorem uniform_floatOfInteger (value : Word → Int) :
    Uniform [.float, .integer] true (floatOfInteger p value) :=
  fun _ _ _ ha => .bind (matches_floatRegister ha rfl) fun _ =>
    .bind (matches_register ha rfl) fun _ => .bind (.readX _) fun _ =>
      .bind (matches_rounding ha rfl rfl) fun _ => matches_deliver _ _ _ _

theorem uniform_floatConvert (q : Precision) : Uniform [.float, .float] true (floatConvert p q) :=
  fun _ _ _ ha => .bind (matches_floatRegister ha rfl) fun _ =>
    .bind (matches_floatRegister ha rfl) fun _ => .bind (.readF _ _) fun _ =>
      .bind (matches_rounding ha rfl rfl) fun _ => .bind (.hostNaN _) fun _ =>
        matches_deliver _ _ _ _

theorem uniform_floatLoad : Uniform [.float, .integer, .immediate] false (floatLoad p) :=
  fun _ _ _ ha => .bind (matches_floatRegister ha rfl) fun _ =>
    .bind (matches_effectiveAddress ha rfl rfl) fun _ => .bind (.load _ _) fun _ => .writeF _ _ _

theorem uniform_floatStore : Uniform [.float, .integer, .immediate] false (floatStore p) :=
  fun _ _ _ ha => .bind (matches_floatRegister ha rfl) fun _ => .bind (.readF _ _) fun _ =>
    .bind (matches_effectiveAddress ha rfl rfl) fun _ => .store _ _ _

theorem uniform_floatToBits : Uniform [.integer, .float] false floatToBits :=
  fun _ _ _ ha => .bind (matches_register ha rfl) fun _ =>
    .bind (matches_floatRegister ha rfl) fun _ => .bind (.readF _ _) fun _ => .writeX _ _

theorem uniform_floatOfBits : Uniform [.float, .integer] false floatOfBits :=
  fun _ _ _ ha => .bind (matches_floatRegister ha rfl) fun _ =>
    .bind (matches_register ha rfl) fun _ => .bind (.readX _) fun _ => .writeF _ _ _

theorem Uniform.wide {handler : Handler} (hhandler : Uniform kinds rounded handler) :
    Uniform kinds rounded (wide handler) :=
  fun symbols i j ha => .bind (.needs _ i j) fun _ => hhandler symbols i j ha

end Floating

/-! ## Control register and system instructions -/

theorem matches_swapCsr (rd : Nat) (addr v : Word) :
    Matches symbols (swapCsr rd addr v) (swapCsr rd addr v) := by
  unfold swapCsr
  by_cases hrd : rd = Register.zero
  · rw [if_pos hrd]
    exact .writeCsr _ _
  · rw [if_neg hrd]
    exact .bind (.readCsr _) fun _ => .bind (.writeCsr _ _) fun _ => .writeX _ _

theorem matches_updateCsr (rd : Nat) (addr : Word) (mask : Option Word)
    (op : Word → Word → Word) :
    Matches symbols (updateCsr rd addr mask op) (updateCsr rd addr mask op) := by
  refine .bind (.readCsr _) fun old => ?_
  cases mask with
  | none => exact .writeX _ _
  | some m => exact .bind (.writeCsr _ _) fun _ => .writeX _ _

theorem uniform_registerSource : Uniform [.integer, .csr, .integer] false registerSource :=
  fun _ _ _ ha => .bind (matches_register ha rfl) fun _ => .readX _

theorem uniform_registerMask : Uniform [.integer, .csr, .integer] false registerMask := by
  intro symbols i j ha
  refine .bind (matches_register ha rfl) fun rs => ?_
  by_cases hrs : rs = Register.zero
  · rw [if_pos hrs]
    exact .pure none
  · rw [if_neg hrs]
    exact .bind (.readX _) fun _ => .pure _

theorem uniform_smallImmediate : Uniform [.integer, .csr, .immediate] false smallImmediate :=
  fun _ _ _ ha => .bind (matches_immediate ha rfl) fun _ => .pure _

theorem uniform_immediateMask : Uniform [.integer, .csr, .immediate] false immediateMask :=
  fun symbols i j ha => .bind (uniform_smallImmediate symbols i j ha) fun _ => .pure _

theorem uniform_csrSwap {kind : OperandKind} {source : Instruction → Exec Word}
    (hsource : Uniform [.integer, .csr, kind] false source) :
    Uniform [.integer, .csr, kind] false (csrSwap source) :=
  fun symbols i j ha => .bind (matches_register ha rfl) fun _ => .bind (matches_csr ha rfl) fun _ =>
    .bind (hsource symbols i j ha) fun _ => matches_swapCsr _ _ _

theorem uniform_csrUpdate {kind : OperandKind} {source : Instruction → Exec (Option Word)}
    (hsource : Uniform [.integer, .csr, kind] false source) (op : Word → Word → Word) :
    Uniform [.integer, .csr, kind] false (csrUpdate source op) :=
  fun symbols i j ha => .bind (matches_register ha rfl) fun _ => .bind (matches_csr ha rfl) fun _ =>
    .bind (hsource symbols i j ha) fun _ => matches_updateCsr _ _ _ _

theorem uniform_environmentBreak (kinds : List OperandKind) :
    Uniform kinds false environmentBreak := fun _ i j _ => .environmentBreak i j

theorem uniform_machineReturn (kinds : List OperandKind) : Uniform kinds false machineReturn :=
  fun _ i j _ => .machineReturn i j

theorem uniform_unimplemented (kinds : List OperandKind) : Uniform kinds false unimplemented := by
  intro symbols i j ha
  unfold unimplemented
  rw [ha.mnemonic]
  exact .unimplemented _

theorem uniform_waitForInterrupt (kinds : List OperandKind) :
    Uniform kinds false waitForInterrupt := fun _ i j _ => .waitForInterrupt i j

end Exec
end Riscv32
