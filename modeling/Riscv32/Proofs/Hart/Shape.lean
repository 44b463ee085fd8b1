import Riscv32.Proofs.Hart.Dispatch

/-!
# The shape of instructions

Every instruction of the standard sets first checks and reads what it needs, then makes one
change that may still be refused, and after that does only what cannot fail. That shape is a
derivation here: `Acts` has a constructor for each small step and for each way of putting steps
together. What holds of all instructions is proved by induction on it, without a look at the
single instruction.

## Main definitions

* `ExecError.Synchronous e` — the failure is no interrupt.
* `Exec.Powers` — what an instruction may do besides computing.
* `Exec.Checks can` — actions that read and check.
* `Exec.Writes can` — actions that cannot fail.
* `Exec.Acts can` — checks, then at most one change that may be refused, then writes.

## Main statements

* `Exec.acts_of_mem_standard`, the shape of every standard instruction.
-/
namespace Riscv32

/-- The failure is no interrupt, whatever instruction it is of. -/
def ExecError.Synchronous (e : ExecError) : Prop :=
  ∀ encoding t, e.trap? encoding = some t → t.isInterrupt = false

/-- A failure whose trap is known to be an exception. -/
theorem ExecError.synchronous_of_trap? {e : ExecError} {t : Word → Trap}
    (he : ∀ encoding, e.trap? encoding = some (t encoding))
    (ht : ∀ encoding, (t encoding).isInterrupt = false) : e.Synchronous := by
  intro encoding t' he'
  rw [he encoding] at he'
  cases he'
  exact ht encoding

namespace Exec

/-- What an instruction may do besides computing and accesses to memory. -/
structure Powers where
  /-- Hold a reservation. -/
  reserves : Prop
  /-- Give up a reservation. -/
  drops : Prop
  /-- Read and write the control registers. -/
  controls : Prop
  /-- Call the environment or the debugger, return from a trap, wait, or lack a behaviour. -/
  system : Prop

/-- No more than computing and accesses to memory. -/
def Powers.none : Powers := ⟨False, False, False, False⟩

variable {α : Type} {can : Powers}

/-- Actions that read and check. They leave no more behind than the mark of the register read
last, a window that a load mapped, or, if that is allowed to them, a reservation given up. They do
not call the host, only those of the system fail without a trap, and none raises an interrupt. -/
inductive Checks (can : Powers) : {α : Type} → Exec α → Prop
  | pure {α : Type} (a : α) : Checks can (Pure.pure a : Exec α)
  | throw {α : Type} (e : ExecError) : (∀ cause, e ≠ .syscall cause) →
    (can.system ∨ ∀ encoding, (e.trap? encoding).isSome) → e.Synchronous →
    Checks can (throw e : Exec α)
  | bind {α β : Type} {x : Exec α} {f : α → Exec β} :
    Checks can x → (∀ a, Checks can (f a)) → Checks can (x >>= f)
  | readX (i : Nat) : Checks can (readX i)
  | readF (p : Precision) (i : Nat) : Checks can (readF p i)
  | readPc : Checks can (do return (← get).pc : Exec Word)
  | readInstructionPc : Checks can (do return (← get).instructionPc : Exec Word)
  | readCsr (hcontrols : can.controls) (addr : Word) : Checks can (readCsr addr)
  | load (addr : Word) (count : Nat) : Checks can (load addr count)
  | immediate (inst : Instruction) (index : Nat) : Checks can (immediate inst index)
  | target (inst : Instruction) (index : Nat) : Checks can (target inst index)
  | rounding (inst : Instruction) (index : Nat) : Checks can (rounding inst index)
  | needs (p : Precision) (inst : Instruction) : Checks can (needs p inst)
  | hostNaN (p : Precision) : Checks can (hostNaN p)
  | takeReservation (hdrops : can.drops) (addr : Word) : Checks can (takeReservation addr)
  | environmentBreak (hsystem : can.system) (inst : Instruction) :
    Checks can (environmentBreak inst)

/-- Actions that cannot fail. -/
inductive Writes (can : Powers) : {α : Type} → Exec α → Prop
  | pure {α : Type} (a : α) : Writes can (Pure.pure a : Exec α)
  | bind {α β : Type} {x : Exec α} {f : α → Exec β} :
    Writes can x → (∀ a, Writes can (f a)) → Writes can (x >>= f)
  | writeX (i : Nat) (v : Word) : Writes can (writeX i v)
  | writeF (p : Precision) (i : Nat) (x : FloatBits p) : Writes can (writeF p i x)
  | accrue (flags : FloatFlags) : Writes can (accrue flags)
  | reserve (hreserves : can.reserves) (addr : Word) :
    Writes can (modify fun h : Hart => h.reserve addr : Exec Unit)
  | waitForInterrupt (hsystem : can.system) (inst : Instruction) :
    Writes can (waitForInterrupt inst)

/-- Actions that check before the first change and cannot fail after it. -/
inductive Acts (can : Powers) : {α : Type} → Exec α → Prop
  | checks {α : Type} {x : Exec α} : Checks can x → Acts can x
  | writes {α : Type} {x : Exec α} : Writes can x → Acts can x
  | bind {α β : Type} {x : Exec α} {f : α → Exec β} :
    Checks can x → (∀ a, Acts can (f a)) → Acts can (x >>= f)
  | andThen {α β : Type} {x : Exec α} {f : α → Exec β} :
    Acts can x → (∀ a, Writes can (f a)) → Acts can (x >>= f)
  | store (addr : Word) (count v : Nat) : Acts can (store addr count v)
  | jump (target : Word) : Acts can (jump target)
  | writeCsr (hcontrols : can.controls) (addr v : Word) : Acts can (writeCsr addr v)
  | environmentCall (hsystem : can.system) (inst : Instruction) : Acts can (environmentCall inst)
  | machineReturn (hsystem : can.system) (inst : Instruction) : Acts can (machineReturn inst)

/-- An operand is there or not. -/
theorem Checks.operand (x : Except OperandError α) : Checks can (liftM x : Exec α) := by
  cases x with
  | ok a => exact .pure a
  | error e =>
    exact .throw (.operand e) nofun (.inr fun _ => rfl)
      (ExecError.synchronous_of_trap? (fun _ => rfl) fun _ => rfl)

theorem Checks.effectiveAddress (inst : Instruction) : Checks can (effectiveAddress inst) :=
  .bind (.operand _) fun _ => .bind (.readX _) fun _ => .bind (.immediate _ _) fun _ => .pure _

theorem Checks.alignedAddress {misaligned : Word → Trap}
    (hexception : ∀ addr, (misaligned addr).isInterrupt = false) (inst : Instruction) :
    Checks can (alignedAddress misaligned inst) := by
  refine .bind (.operand _) fun _ => .bind (.readX _) fun addr => ?_
  split
  · exact .pure _
  · exact .throw _ nofun (.inr fun _ => rfl)
      (ExecError.synchronous_of_trap? (fun _ => rfl) fun _ => hexception addr)

/-! ## Integer instructions -/

theorem Acts.registerImmediate (op : Word → Word → Word) (inst : Instruction) :
    Acts can (registerImmediate op inst) :=
  .bind (.operand _) fun _ => .bind (.operand _) fun _ => .bind (.readX _) fun _ =>
    .bind (.immediate _ _) fun _ => .writes (.writeX _ _)

theorem Acts.registerRegister (op : Word → Word → Word) (inst : Instruction) :
    Acts can (registerRegister op inst) :=
  .bind (.operand _) fun _ => .bind (.operand _) fun _ => .bind (.readX _) fun _ =>
    .bind (.operand _) fun _ => .bind (.readX _) fun _ => .writes (.writeX _ _)

theorem Acts.branch (taken : Word → Word → Bool) (inst : Instruction) :
    Acts can (branch taken inst) := by
  refine .bind (.operand _) fun _ => .bind (.readX _) fun x => .bind (.operand _) fun _ =>
    .bind (.readX _) fun y => ?_
  split
  · exact .bind (.target _ _) fun _ => .jump _
  · exact .checks (.pure ())

theorem Acts.branchZero (taken : Word → Bool) (inst : Instruction) :
    Acts can (branchZero taken inst) := by
  refine .bind (.operand _) fun _ => .bind (.readX _) fun x => ?_
  split
  · exact .bind (.target _ _) fun _ => .jump _
  · exact .checks (.pure ())

theorem Acts.loadInteger (count : Nat) (extend : Nat → Word) (inst : Instruction) :
    Acts can (loadInteger count extend inst) :=
  .bind (.operand _) fun _ => .bind (.effectiveAddress _) fun _ => .bind (.load _ _) fun _ =>
    .writes (.writeX _ _)

theorem Acts.storeInteger (count : Nat) (inst : Instruction) :
    Acts can (storeInteger count inst) :=
  .bind (.operand _) fun _ => .bind (.readX _) fun _ => .bind (.effectiveAddress _) fun _ =>
    .store _ _ _

theorem Acts.loadUpper (inst : Instruction) : Acts can (loadUpper inst) :=
  .bind (.operand _) fun _ => .bind (.immediate _ _) fun _ => .writes (.writeX _ _)

theorem Acts.addUpperToPc (inst : Instruction) : Acts can (addUpperToPc inst) :=
  .bind (.operand _) fun _ => .bind (.immediate _ _) fun imm =>
    .bind (f := fun pc => writeX _ (pc + imm <<< 12)) .readInstructionPc fun _ =>
      .writes (.writeX _ _)

theorem Acts.jumpAndLink (inst : Instruction) : Acts can (jumpAndLink inst) :=
  .bind (.operand _) fun rd => .bind (.target _ _) fun dest =>
    .bind (f := fun link => do Exec.jump dest; writeX rd link) .readPc fun _ =>
      .andThen (.jump _) fun _ => .writeX _ _

theorem Acts.jumpAndLinkRegister (inst : Instruction) : Acts can (jumpAndLinkRegister inst) :=
  .bind (.operand _) fun rd => .bind (.operand _) fun _ => .bind (.readX _) fun base =>
    .bind (.immediate _ _) fun offset =>
      .bind (f := fun link => do Exec.jump (base + offset).clearBitZero; writeX rd link) .readPc
        fun _ => .andThen (.jump _) fun _ => .writeX _ _

theorem Acts.idle (inst : Instruction) : Acts can (idle inst) := .checks (.pure ())

theorem Acts.returnFromCall (inst : Instruction) : Acts can (returnFromCall inst) :=
  .bind (.readX _) fun _ => .jump _

theorem Acts.move (inst : Instruction) : Acts can (move inst) :=
  .bind (.operand _) fun _ => .bind (.operand _) fun _ => .bind (.readX _) fun _ =>
    .writes (.writeX _ _)

theorem Acts.loadImmediate (inst : Instruction) : Acts can (loadImmediate inst) :=
  .bind (.operand _) fun _ => .bind (.immediate _ _) fun _ => .writes (.writeX _ _)

theorem Acts.jumpTo (inst : Instruction) : Acts can (jumpTo inst) :=
  .bind (.target _ _) fun _ => .jump _

theorem Acts.jumpRegister (inst : Instruction) : Acts can (jumpRegister inst) :=
  .bind (.operand _) fun _ => .bind (.readX _) fun _ => .jump _

theorem Acts.call (inst : Instruction) : Acts can (call inst) :=
  .bind (.target _ _) fun dest =>
    .bind (f := fun pc => do Exec.jump dest; writeX Register.returnAddress (pc + 4))
      .readInstructionPc fun _ => .andThen (.jump _) fun _ => .writeX _ _

/-! ## Atomic instructions -/

/-- The one instruction that holds a reservation. -/
theorem Acts.loadReserved (hreserves : can.reserves) (inst : Instruction) :
    Acts can (loadReserved inst) :=
  .bind (.operand _) fun _ => .bind (.alignedAddress (fun _ => rfl) _) fun _ =>
    .bind (.load _ _) fun _ => .writes (.bind (.writeX _ _) fun _ => .reserve hreserves _)

/-- The one instruction that gives up a reservation. -/
theorem Acts.storeConditional (hdrops : can.drops) (inst : Instruction) :
    Acts can (storeConditional inst) := by
  refine .bind (.operand _) fun _ => .bind (.alignedAddress (fun _ => rfl) _) fun _ =>
    .bind (.operand _) fun _ => .bind (.readX _) fun _ =>
      .bind (.takeReservation hdrops _) fun held => ?_
  split
  · exact .andThen (.store _ _ _) fun _ => .writeX _ _
  · exact .writes (.writeX _ _)

theorem Acts.readModifyWrite (op : Word → Word → Word) (inst : Instruction) :
    Acts can (readModifyWrite op inst) :=
  .bind (.operand _) fun _ => .bind (.alignedAddress (fun _ => rfl) _) fun _ =>
    .bind (.operand _) fun _ => .bind (.readX _) fun _ => .bind (.load _ _) fun _ =>
      .andThen (.store _ _ _) fun _ => .writeX _ _

/-! ## Floating-point instructions -/

section Floating

variable (p : Precision)

theorem Writes.deliver (rd : Nat) (flags : FloatFlags) (x : FloatBits p) :
    Writes can (deliver p rd flags x) :=
  .bind (.accrue _) fun _ => .writeF _ _ _

theorem Writes.finish (rd : Nat) (operands : List (FloatBits p)) (result : FloatBits p) :
    Writes can (finish p rd operands result) := .deliver p _ _ _

theorem Acts.floatBinary (op : FloatBits.NaN p → FloatBits p → FloatBits p → FloatBits p)
    (inst : Instruction) : Acts can (floatBinary p op inst) :=
  .bind (.operand _) fun _ => .bind (.operand _) fun _ => .bind (.readF _ _) fun _ =>
    .bind (.operand _) fun _ => .bind (.readF _ _) fun _ => .bind (.rounding _ _) fun _ =>
      .bind (.hostNaN _) fun _ => .writes (.finish _ _ _ _)

theorem Acts.floatDivide (inst : Instruction) : Acts can (floatDivide p inst) := by
  refine .bind (.operand _) fun _ => .bind (.operand _) fun _ => .bind (.readF _ _) fun x =>
    .bind (.operand _) fun _ => .bind (.readF _ _) fun y => .bind (.rounding _ _) fun _ =>
      .bind (.hostNaN _) fun _ => ?_
  split
  · exact .writes (.deliver _ _ _ _)
  · exact .writes (.finish _ _ _ _)

theorem Acts.floatSqrt (inst : Instruction) : Acts can (floatSqrt p inst) :=
  .bind (.operand _) fun _ => .bind (.operand _) fun _ => .bind (.readF _ _) fun _ =>
    .bind (.rounding _ _) fun _ => .bind (.hostNaN _) fun _ => .writes (.finish _ _ _ _)

theorem Acts.floatFused (negateProduct negateTerm : Bool) (inst : Instruction) :
    Acts can (floatFused p negateProduct negateTerm inst) :=
  .bind (.operand _) fun _ => .bind (.operand _) fun _ => .bind (.readF _ _) fun _ =>
    .bind (.operand _) fun _ => .bind (.readF _ _) fun _ => .bind (.operand _) fun _ =>
      .bind (.readF _ _) fun _ => .bind (.rounding _ _) fun _ => .bind (.hostNaN _) fun _ =>
        .writes (.finish _ _ _ _)

theorem Acts.floatInjectSign (source : FloatBits.SignSource) (inst : Instruction) :
    Acts can (floatInjectSign p source inst) :=
  .bind (.operand _) fun _ => .bind (.operand _) fun _ => .bind (.readF _ _) fun _ =>
    .bind (.operand _) fun _ => .bind (.readF _ _) fun _ => .writes (.writeF _ _ _)

theorem Acts.floatExtremum (greater : Bool) (inst : Instruction) :
    Acts can (floatExtremum p greater inst) :=
  .bind (.operand _) fun _ => .bind (.operand _) fun _ => .bind (.readF _ _) fun _ =>
    .bind (.operand _) fun _ => .bind (.readF _ _) fun _ => .writes (.deliver _ _ _ _)

theorem Acts.floatCompare (c : FloatBits.Comparison) (inst : Instruction) :
    Acts can (floatCompare p c inst) :=
  .bind (.operand _) fun _ => .bind (.operand _) fun _ => .bind (.readF _ _) fun _ =>
    .bind (.operand _) fun _ => .bind (.readF _ _) fun _ =>
      .writes (.bind (.accrue _) fun _ => .writeX _ _)

theorem Acts.floatClassify (inst : Instruction) : Acts can (floatClassify p inst) :=
  .bind (.operand _) fun _ => .bind (.operand _) fun _ => .bind (.readF _ _) fun _ =>
    .writes (.writeX _ _)

theorem Acts.floatToInteger (convert : FloatBits p → RoundingMode → Word × FloatFlags)
    (inst : Instruction) : Acts can (floatToInteger p convert inst) :=
  .bind (.operand _) fun _ => .bind (.operand _) fun _ => .bind (.readF _ _) fun _ =>
    .bind (.rounding _ _) fun _ => .writes (.bind (.accrue _) fun _ => .writeX _ _)

theorem Acts.floatOfInteger (value : Word → Int) (inst : Instruction) :
    Acts can (floatOfInteger p value inst) :=
  .bind (.operand _) fun _ => .bind (.operand _) fun _ => .bind (.readX _) fun _ =>
    .bind (.rounding _ _) fun _ => .writes (.deliver _ _ _ _)

theorem Acts.floatConvert (q : Precision) (inst : Instruction) :
    Acts can (floatConvert p q inst) :=
  .bind (.operand _) fun _ => .bind (.operand _) fun _ => .bind (.readF _ _) fun _ =>
    .bind (.rounding _ _) fun _ => .bind (.hostNaN _) fun _ => .writes (.deliver _ _ _ _)

theorem Acts.floatLoad (inst : Instruction) : Acts can (floatLoad p inst) :=
  .bind (.operand _) fun _ => .bind (.effectiveAddress _) fun _ => .bind (.load _ _) fun _ =>
    .writes (.writeF _ _ _)

theorem Acts.floatStore (inst : Instruction) : Acts can (floatStore p inst) :=
  .bind (.operand _) fun _ => .bind (.readF _ _) fun _ => .bind (.effectiveAddress _) fun _ =>
    .store _ _ _

theorem Acts.floatToBits (inst : Instruction) : Acts can (floatToBits inst) :=
  .bind (.operand _) fun _ => .bind (.operand _) fun _ => .bind (.readF _ _) fun _ =>
    .writes (.writeX _ _)

theorem Acts.floatOfBits (inst : Instruction) : Acts can (floatOfBits inst) :=
  .bind (.operand _) fun _ => .bind (.operand _) fun _ => .bind (.readX _) fun _ =>
    .writes (.writeF _ _ _)

theorem Acts.wide {handler : Handler} (h : ∀ inst, Acts can (handler inst)) (inst : Instruction) :
    Acts can (wide handler inst) := .bind (.needs _ _) fun _ => h inst

end Floating

/-! ## Control register and system instructions -/

section Controls

variable (hcontrols : can.controls)

include hcontrols

theorem Acts.swapCsr (rd : Nat) (addr v : Word) : Acts can (swapCsr rd addr v) := by
  rw [Exec.swapCsr]
  split
  · exact .writeCsr hcontrols _ _
  · exact .bind (.readCsr hcontrols _) fun _ => .andThen (.writeCsr hcontrols _ _) fun _ =>
      .writeX _ _

theorem Acts.updateCsr (rd : Nat) (addr : Word) (mask : Option Word) (op : Word → Word → Word) :
    Acts can (updateCsr rd addr mask op) := by
  refine .bind (.readCsr hcontrols _) fun old => ?_
  cases mask with
  | none => exact .writes (.writeX _ _)
  | some m => exact .andThen (.writeCsr hcontrols _ _) fun _ => .writeX _ _

end Controls

theorem Checks.registerSource (inst : Instruction) : Checks can (registerSource inst) :=
  .bind (.operand _) fun _ => .readX _

theorem Checks.registerMask (inst : Instruction) : Checks can (registerMask inst) := by
  refine .bind (.operand _) fun rs => ?_
  split
  · exact .pure none
  · exact .bind (.readX _) fun _ => .pure _

theorem Checks.smallImmediate (inst : Instruction) : Checks can (smallImmediate inst) :=
  .bind (.immediate _ _) fun _ => .pure _

theorem Checks.immediateMask (inst : Instruction) : Checks can (immediateMask inst) :=
  .bind (.smallImmediate _) fun _ => .pure _

theorem Acts.csrSwap (hcontrols : can.controls) {source : Instruction → Exec Word}
    (hsource : ∀ inst, Checks can (source inst)) (inst : Instruction) :
    Acts can (csrSwap source inst) :=
  .bind (.operand _) fun _ => .bind (.operand _) fun _ => .bind (hsource _) fun _ =>
    .swapCsr hcontrols _ _ _

theorem Acts.csrUpdate (hcontrols : can.controls) {source : Instruction → Exec (Option Word)}
    (hsource : ∀ inst, Checks can (source inst)) (op : Word → Word → Word) (inst : Instruction) :
    Acts can (csrUpdate source op inst) :=
  .bind (.operand _) fun _ => .bind (.operand _) fun _ => .bind (hsource _) fun _ =>
    .updateCsr hcontrols _ _ _ _

theorem Acts.unimplemented (hsystem : can.system) (inst : Instruction) :
    Acts can (unimplemented inst) := .checks (.throw _ nofun (.inl hsystem) nofun)

/-! ## The standard sets -/

/-- What the instruction with a mnemonic may do besides computing. -/
def Powers.ofMnemonic (mnemonic : String) : Powers where
  reserves := mnemonic = "lr.w"
  drops := mnemonic = "sc.w"
  controls := mnemonic ∈ csrHandlers.map Prod.fst
  system := mnemonic ∈ systemHandlers.map Prod.fst

theorem acts_integerHandlers : ∀ r ∈ integerHandlers, ∀ inst, Acts can (r.2 inst) := by
  simp only [integerHandlers, List.forall_mem_cons, List.not_mem_nil, false_implies,
    implies_true, and_true]
  exact ⟨.loadUpper, .addUpperToPc, .jumpAndLink, .jumpAndLinkRegister,
    .branch _, .branch _, .branch _, .branch _, .branch _, .branch _,
    .loadInteger _ _, .loadInteger _ _, .loadInteger _ _, .loadInteger _ _, .loadInteger _ _,
    .storeInteger _, .storeInteger _, .storeInteger _,
    .registerImmediate _, .registerImmediate _, .registerImmediate _, .registerImmediate _,
    .registerImmediate _, .registerImmediate _, .registerImmediate _, .registerImmediate _,
    .registerImmediate _,
    .registerRegister _, .registerRegister _, .registerRegister _, .registerRegister _,
    .registerRegister _, .registerRegister _, .registerRegister _, .registerRegister _,
    .registerRegister _, .registerRegister _,
    .idle, .idle, .idle, .returnFromCall, .move, .loadImmediate, .loadImmediate, .jumpTo,
    .jumpRegister, .call, .branchZero _, .branchZero _⟩

theorem acts_multiplyHandlers : ∀ r ∈ multiplyHandlers, ∀ inst, Acts can (r.2 inst) := by
  simp only [multiplyHandlers, List.forall_mem_cons, List.not_mem_nil, false_implies,
    implies_true, and_true]
  exact ⟨.registerRegister _, .registerRegister _, .registerRegister _, .registerRegister _,
    .registerRegister _, .registerRegister _, .registerRegister _, .registerRegister _⟩

theorem acts_atomicHandlers :
    ∀ r ∈ atomicHandlers, ∀ inst, Acts (.ofMnemonic r.1) (r.2 inst) := by
  simp only [atomicHandlers, List.forall_mem_cons, List.not_mem_nil, false_implies,
    implies_true, and_true]
  exact ⟨.loadReserved rfl, .storeConditional rfl, .readModifyWrite _, .readModifyWrite _,
    .readModifyWrite _, .readModifyWrite _, .readModifyWrite _, .readModifyWrite _,
    .readModifyWrite _, .readModifyWrite _, .readModifyWrite _⟩

theorem acts_singleHandlers : ∀ r ∈ singleHandlers, ∀ inst, Acts can (r.2 inst) := by
  simp only [singleHandlers, List.forall_mem_cons, List.not_mem_nil, false_implies,
    implies_true, and_true]
  exact ⟨.floatLoad _, .floatStore _, .floatFused _ _ _, .floatFused _ _ _, .floatFused _ _ _,
    .floatFused _ _ _, .floatBinary _ _, .floatBinary _ _, .floatBinary _ _,
    .floatDivide _, .floatSqrt _, .floatInjectSign _ _, .floatInjectSign _ _,
    .floatInjectSign _ _, .floatExtremum _ _, .floatExtremum _ _, .floatToInteger _ _,
    .floatToInteger _ _, .floatToBits, .floatClassify _, .floatCompare _ _, .floatCompare _ _,
    .floatCompare _ _, .floatOfInteger _ _, .floatOfInteger _ _, .floatOfBits⟩

theorem acts_doubleHandlers : ∀ r ∈ doubleHandlers, ∀ inst, Acts can (r.2 inst) := by
  simp only [doubleHandlers, List.forall_mem_cons, List.not_mem_nil, false_implies,
    implies_true, and_true]
  exact ⟨.wide (.floatLoad _), .wide (.floatStore _), .wide (.floatFused _ _ _),
    .wide (.floatFused _ _ _), .wide (.floatFused _ _ _), .wide (.floatFused _ _ _),
    .wide (.floatBinary _ _), .wide (.floatBinary _ _), .wide (.floatBinary _ _),
    .wide (.floatDivide _), .wide (.floatSqrt _), .wide (.floatInjectSign _ _),
    .wide (.floatInjectSign _ _), .wide (.floatInjectSign _ _), .wide (.floatExtremum _ _),
    .wide (.floatExtremum _ _), .wide (.floatConvert _ _), .wide (.floatConvert _ _),
    .wide (.floatCompare _ _), .wide (.floatCompare _ _), .wide (.floatCompare _ _),
    .wide (.floatClassify _), .wide (.floatToInteger _ _), .wide (.floatToInteger _ _),
    .wide (.floatOfInteger _ _), .wide (.floatOfInteger _ _)⟩

theorem acts_csrHandlers (hcontrols : can.controls) :
    ∀ r ∈ csrHandlers, ∀ inst, Acts can (r.2 inst) := by
  simp only [csrHandlers, List.forall_mem_cons, List.not_mem_nil, false_implies,
    implies_true, and_true]
  exact ⟨.csrSwap hcontrols .registerSource, .csrUpdate hcontrols .registerMask _,
    .csrUpdate hcontrols .registerMask _, .csrSwap hcontrols .smallImmediate,
    .csrUpdate hcontrols .immediateMask _, .csrUpdate hcontrols .immediateMask _⟩

theorem acts_systemHandlers (hsystem : can.system) :
    ∀ r ∈ systemHandlers, ∀ inst, Acts can (r.2 inst) := by
  simp only [systemHandlers, List.forall_mem_cons, List.not_mem_nil, false_implies,
    implies_true, and_true]
  exact ⟨.environmentCall hsystem, fun inst => .checks (.environmentBreak hsystem inst),
    .machineReturn hsystem, .unimplemented hsystem, .unimplemented hsystem,
    fun inst => .writes (.waitForInterrupt hsystem inst)⟩

/-- Every instruction of the standard sets checks first, and cannot fail after it has changed
something. What it may do besides computing goes by its mnemonic. -/
theorem acts_of_mem_standard {s : InstructionSet} (hs : s ∈ InstructionSet.standard)
    {r : String × Handler} (hr : r ∈ s.handlers) (inst : Instruction) :
    Acts (.ofMnemonic r.1) (r.2 inst) := by
  revert s
  simp only [InstructionSet.standard, List.forall_mem_cons, List.not_mem_nil, false_implies,
    implies_true, and_true]
  exact ⟨fun hr => acts_integerHandlers r hr inst, fun hr => acts_multiplyHandlers r hr inst,
    fun hr => acts_atomicHandlers r hr inst, fun hr => acts_singleHandlers r hr inst,
    fun hr => acts_doubleHandlers r hr inst,
    fun hr => acts_csrHandlers (List.mem_map_of_mem hr) r hr inst,
    fun hr => acts_systemHandlers (List.mem_map_of_mem hr) r hr inst⟩

/-- No other set has an instruction under a mnemonic of the system instructions. -/
theorem mem_systemHandlers_of_mem_standard {s : InstructionSet} (hs : s ∈ InstructionSet.standard)
    {r : String × Handler} (hr : r ∈ s.handlers) (hname : r.1 ∈ systemHandlers.map Prod.fst) :
    r ∈ systemHandlers := by
  have hothers : ∀ handlers ∈ [integerHandlers, multiplyHandlers, atomicHandlers, singleHandlers,
      doubleHandlers, csrHandlers], ∀ r ∈ handlers, r.1 ∉ systemHandlers.map Prod.fst := by
    decide +kernel
  simp only [List.forall_mem_cons, List.not_mem_nil, false_implies, implies_true,
    and_true] at hothers
  obtain ⟨hinteger, hmultiply, hatomic, hsingle, hdouble, hcsr⟩ := hothers
  revert s
  simp only [InstructionSet.standard, List.forall_mem_cons, List.not_mem_nil, false_implies,
    implies_true, and_true]
  exact ⟨fun hr => absurd hname (hinteger r hr), fun hr => absurd hname (hmultiply r hr),
    fun hr => absurd hname (hatomic r hr), fun hr => absurd hname (hsingle r hr),
    fun hr => absurd hname (hdouble r hr), fun hr => absurd hname (hcsr r hr), id⟩

end Exec

/-! ## Tables -/

namespace DispatchTable

/-- Whatever a table of standard sets finds checks first, and cannot fail after it has changed
something. -/
theorem acts_of_handler? {sets : List InstructionSet} {t : DispatchTable} {mnemonic : String}
    {handler : Handler} (hsets : ∀ s ∈ sets, s ∈ InstructionSet.standard)
    (ht : build sets = .ok t) (h : t.handler? mnemonic = some handler) (inst : Instruction) :
    Exec.Acts (.ofMnemonic mnemonic) (handler inst) := by
  obtain ⟨s, hs, r, hr, rfl, rfl⟩ := exists_set_of_handler? ht h
  exact Exec.acts_of_mem_standard (hsets s hs) hr inst

/-- Under a mnemonic of the system instructions a table of standard sets finds just those. -/
theorem mem_systemHandlers_of_handler? {sets : List InstructionSet} {t : DispatchTable}
    {mnemonic : String} {handler : Handler} (hsets : ∀ s ∈ sets, s ∈ InstructionSet.standard)
    (ht : build sets = .ok t) (h : t.handler? mnemonic = some handler)
    (hname : mnemonic ∈ Exec.systemHandlers.map Prod.fst) :
    (mnemonic, handler) ∈ Exec.systemHandlers := by
  obtain ⟨s, hs, r, hr, rfl, rfl⟩ := exists_set_of_handler? ht h
  exact Exec.mem_systemHandlers_of_mem_standard (hsets s hs) hr hname

end DispatchTable
end Riscv32
