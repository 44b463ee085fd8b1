import Riscv32.Proofs.Hart.Confinement
import Riscv32.Proofs.Hart.Fault

/-!
# A privileged hart survives its guest

No fetch and no instruction of a privileged hart ends in a fault: whatever fails converts to a trap,
save for the returns that have no behaviour and a breakpoint with a debugger attached, and those are
reported under their own names. The exit register is the only control register that asks to halt,
and only machine mode may write it. So nothing but an instruction that stores a word other than zero
there halts the hart, with that word as the exit code.

## Main definitions

* `Hart.SameExit h h'` — the harts are both halted or both not, with the same exit code.
* `Hart.ExitsWith h h' v` — in machine mode `v` is written to the exit register, which halts.
* `Hart.Endures h inst r` — what becomes of a privileged hart that executes the instruction.
* `Hart.Ends h e` — the errors of a step of a privileged hart.
* `Hart.Survives table h` — the step ends in no fault, and halts only through the exit register.

## Main statements

* `Csr.Store.eq_of_set_halt`, the exit register.
* `Exec.Acts.exits`, an instruction that is none of the system.
* `Hart.endures_execute`, any instruction.
* `Hart.privileged_survives`, every step of a run.
-/
namespace Riscv32

/-! ## The exit register -/

namespace Csr.Store

variable {s : Store} {addr v code : Word}

theorem eq_halt_of_kind (hs : s.Virtual) (hkind : (s.slot addr).kind = .halt) :
    addr = Csr.halt := by
  have hkinds : ∀ p ∈ initialKinds, p.2 = .halt → p.1 = Csr.halt := by decide
  have hregistered : (s.slot addr).kind ≠ .plain := by
    rw [hkind]
    decide
  exact hkinds _ (mem_initialKinds hs hregistered) hkind

/-- A write asks to halt only if it stores a word other than zero in the exit register, and that
word is the exit code. -/
theorem eq_of_set_halt (hs : s.Virtual) (heffect : (s.set addr v).1 = .halt code) :
    addr = Csr.halt ∧ code ≠ 0 ∧ (s.set addr v).2.raw Csr.halt = code ∧
      s.stored Csr.halt v = code := by
  rw [set_eq] at heffect ⊢
  cases hkind : (s.slot addr).kind with
  | halt =>
    obtain rfl := eq_halt_of_kind hs hkind
    rw [hkind] at heffect
    by_cases hzero : s.stored Csr.halt v = 0
    · simp [hzero] at heffect
    · simp only [hzero, if_false, Effect.halt.injEq] at heffect
      subst heffect
      exact ⟨rfl, hzero, by simp, rfl⟩
  | _ =>
    rw [hkind] at heffect
    cases heffect

end Csr.Store

namespace Hart

variable {h h' k : Hart} {addr v : Word}

/-- The harts are both halted or both not, with the same exit code. -/
def SameExit (h h' : Hart) : Prop := h'.halted = h.halted ∧ h'.exitCode = h.exitCode

theorem SameExit.trans (hk : h.SameExit k) (hk' : k.SameExit h') : h.SameExit h' :=
  ⟨hk'.1.trans hk.1, hk'.2.trans hk.2⟩

/-- In machine mode `v` is written to the exit register, which then holds a word other than zero.
The hart halts with that word. -/
structure ExitsWith (h h' : Hart) (v : Word) : Prop where
  machine : h.privilege = .machine
  stored : h'.csrs.raw Csr.halt = h.csrs.stored Csr.halt v
  nonzero : h.csrs.stored Csr.halt v ≠ 0
  halted : h'.halted = true
  exitCode : h'.exitCode = some (h.csrs.stored Csr.halt v)

/-- Only the exit register halts the hart. -/
theorem exits_of_writeCsr (hs : h.csrs.Virtual) (hwrite : h.writeCsr addr v = .ok h') :
    h.SameExit h' ∨ h.ExitsWith h' v := by
  obtain ⟨hcheck, rfl⟩ := writeCsr_eq_ok hwrite
  cases heffect : (h.csrs.set addr v).1 with
  | none => exact .inl ⟨rfl, rfl⟩
  | armTimer compare => exact .inl ⟨rfl, rfl⟩
  | halt code =>
    obtain ⟨rfl, hcode, hraw, rfl⟩ := Csr.Store.eq_of_set_halt hs heffect
    have hmachine : h.privilege = .machine := by
      cases hprivilege : h.privilege with
      | machine => rfl
      | user =>
        rw [hprivilege] at hcheck
        exact absurd (Csr.requiredLevel_of_user hcheck) (by decide)
    exact .inr ⟨hmachine, hraw, hcode, rfl, rfl⟩

theorem virtual_writeCsr (hs : h.csrs.Virtual) (hwrite : h.writeCsr addr v = .ok h') :
    h'.csrs.Virtual := by
  obtain ⟨-, rfl⟩ := writeCsr_eq_ok hwrite
  have hset := hs.set addr v
  cases (h.csrs.set addr v).1 with
  | armTimer compare => exact hset.setRaw _ _
  | _ => exact hset

end Hart

/-! ## Instructions -/

namespace Exec

variable {α : Type} {can : Powers} {drops : Prop} {x : Exec α} {h h' : Hart} {v : Word}

/-- What checks leave alone of all that concerns the exit. -/
def SameControl (h h' : Hart) : Prop :=
  h'.csrs = h.csrs ∧ h'.privilege = h.privilege ∧ h.SameExit h'

theorem unseen_sameControl : Unseen drops SameControl where
  refl _ := ⟨rfl, rfl, rfl, rfl⟩
  trans h₁₂ h₂₃ := ⟨h₂₃.1.trans h₁₂.1, h₂₃.2.1.trans h₁₂.2.1, h₁₂.2.2.trans h₂₃.2.2⟩
  markRead _ _ := ⟨rfl, rfl, rfl, rfl⟩
  search _ _ _ _ := ⟨rfl, rfl, rfl, rfl⟩
  reservation _ _ := ⟨rfl, rfl, rfl, rfl⟩
  syscall _ _ := ⟨rfl, rfl, rfl, rfl⟩

/-- What writes leave alone of it. -/
def SameExitRegister (h h' : Hart) : Prop :=
  h'.csrs.raw Csr.halt = h.csrs.raw Csr.halt ∧ h.SameExit h'

theorem written_sameExitRegister : Written can SameExitRegister where
  refl _ := ⟨rfl, rfl, rfl⟩
  trans h₁₂ h₂₃ := ⟨h₂₃.1.trans h₁₂.1, h₁₂.2.trans h₂₃.2⟩
  regs _ _ := ⟨rfl, rfl, rfl⟩
  accrue h flags := by
    unfold Hart.accrue
    split
    · exact ⟨rfl, rfl, rfl⟩
    · exact ⟨by rw [Csr.Store.raw_setRaw, if_neg (by decide)], rfl, rfl⟩
  reserve _ _ _ := ⟨rfl, rfl, rfl⟩
  waiting _ _ := ⟨rfl, rfl, rfl⟩

theorem sameExit_jump (target : Word) : Keeps Hart.SameExit (jump target) := by
  refine keeps_of_get fun h => ?_
  by_cases ha : target.isAligned
  · rw [Hart.jump, if_pos ha]
    exact ⟨rfl, rfl⟩
  · rw [Hart.jump, if_neg ha]
    exact ⟨rfl, rfl⟩

/-- An instruction that is none of the system halts the hart only as a control register instruction
and only through the exit register. -/
theorem Acts.exits (hx : Acts can x) (hsystem : ¬ can.system) (hs : h.csrs.Virtual) :
    h.SameExit (stateAfter x h) ∨ can.controls ∧ ∃ v, h.ExitsWith (stateAfter x h) v := by
  induction hx generalizing h with
  | checks hx => exact .inl (hx.keeps unseen_sameControl h).2.2
  | writes hx => exact .inl (hx.keeps written_sameExitRegister h).2
  | @bind α β x f hx _ ihf =>
    obtain ⟨hcsrs, hprivilege, hexit⟩ := hx.keeps unseen_sameControl h
    simp only [stateAfter, Bind.bind, EStateM.bind] at hcsrs hprivilege hexit ⊢
    cases hres : x h with
    | error e h₁ =>
      rw [hres] at hexit
      exact .inl hexit
    | ok a h₁ =>
      rw [hres] at hcsrs hprivilege hexit
      rcases ihf a (h := h₁) (hcsrs ▸ hs) with hsame | ⟨hcontrols, v, hexits⟩
      · exact .inl (hexit.trans hsame)
      · exact .inr ⟨hcontrols, v, hprivilege ▸ hexits.machine, hcsrs ▸ hexits.stored,
          hcsrs ▸ hexits.nonzero, hexits.halted, hcsrs ▸ hexits.exitCode⟩
  | @andThen α β x f _ hf ihx =>
    have hfirst := ihx hs
    simp only [stateAfter, Bind.bind, EStateM.bind] at hfirst ⊢
    cases hres : x h with
    | error e h₁ =>
      rw [hres] at hfirst
      exact hfirst
    | ok a h₁ =>
      rw [hres] at hfirst
      obtain ⟨hraw, hexit⟩ := (hf a).keeps written_sameExitRegister h₁
      rcases hfirst with hsame | ⟨hcontrols, v, hexits⟩
      · exact .inl (hsame.trans hexit)
      · exact .inr ⟨hcontrols, v, hexits.machine, hraw.trans hexits.stored,
          hexits.nonzero, hexit.1.trans hexits.halted, hexit.2.trans hexits.exitCode⟩
  | store addr count v =>
    rw [Exec.store, stateAfter_access]
    exact .inl ⟨rfl, rfl⟩
  | jump target => exact .inl (sameExit_jump target h)
  | writeCsr hcontrols addr v =>
    rw [stateAfter_writeCsr]
    cases hwrite : h.writeCsr addr v with
    | error e => exact .inl ⟨rfl, rfl⟩
    | ok h' =>
      exact (Hart.exits_of_writeCsr hs hwrite).imp_right fun hexits => ⟨hcontrols, v, hexits⟩
  | environmentCall hcan inst => exact absurd hcan hsystem
  | machineReturn hcan inst => exact absurd hcan hsystem

/-! ## The kinds of control registers -/

/-- The control registers keep their kinds. -/
def KeepsKinds (h h' : Hart) : Prop := h.csrs.Virtual → h'.csrs.Virtual

theorem respects_keepsKinds : Respects can KeepsKinds where
  refl _ := id
  trans h₁₂ h₂₃ hs := h₂₃ (h₁₂ hs)
  markRead _ _ := id
  search _ _ _ _ := id
  reservation _ _ := id
  syscall _ _ := id
  regs _ _ := id
  accrue h flags hs := by
    unfold Hart.accrue
    split
    · exact hs
    · exact hs.setRaw _ _
  reserve _ _ _ := id
  waiting _ _ := id
  write _ _ _ := id
  pc _ _ := id
  writeCsr _ _ _ _ _ hwrite hs := Hart.virtual_writeCsr hs hwrite
  halt _ _ _ _ := id
  machineReturn _ _ _ hs := ((hs.setRaw _ _).setRaw _ _).setRaw _ _

/-- No instruction makes a control register of another kind. -/
theorem Acts.keepsKinds (hx : Acts can x) : Keeps KeepsKinds x := hx.keeps respects_keepsKinds

end Exec

/-! ## Steps -/

namespace Hart

variable {table : DispatchTable} {sets : List InstructionSet} {h h' b k : Hart}
  {inst : Instruction} {handler : Handler} {e : ExecError} {err : HartError}

/-- What becomes of a privileged hart that executes the instruction. -/
inductive Endures (h : Hart) (inst : Instruction) : EStateM.Result HartError Hart Unit → Prop
  /-- The hart goes on, perhaps with a trap queued. -/
  | goesOn {h' : Hart} : h.SameExit h' → Endures h inst (.ok () h')
  /-- The instruction writes to the exit register. -/
  | exits {h' : Hart} (v : Word) : inst.mnemonic ∈ Exec.csrHandlers.map Prod.fst →
    h.ExitsWith h' v → Endures h inst (.ok () h')
  /-- The instruction has no behaviour. -/
  | unimplemented {h' : Hart} : inst.mnemonic = "sret" ∨ inst.mnemonic = "uret" → h.SameExit h' →
    Endures h inst (.error (.unimplemented inst.mnemonic h.instructionPc) h')
  /-- The instruction asks for the debugger. -/
  | debuggerRequested {h' : Hart} : inst.mnemonic = "ebreak" → h.debugger.isSome → h.SameExit h' →
    Endures h inst (.error (.debuggerRequested h.instructionPc) h')

/-- A failure with a trap does not stop a privileged hart. -/
theorem fail_of_converts (hp : h.privileged = true) (he : e.Converts)
    (inst : Option Instruction) :
    ∃ h', h.fail inst e = .ok () h' ∧ h.SameExit h' := by
  obtain ⟨t, ht⟩ := Option.isSome_iff_exists.1 (he ((inst.bind (·.encoding?)).getD 0))
  exact ⟨_, fail_of_trap? hp ht, rfl, rfl⟩

theorem endures_of_converts (hp : h.privileged = true) (he : e.Converts) :
    Endures h inst (h.fail (some inst) e) := by
  obtain ⟨h', hfail, hsame⟩ := fail_of_converts hp he (some inst)
  rw [hfail]
  exact .goesOn hsame

/-- The system instructions of a privileged hart do not halt it. -/
theorem endures_system (hfind : table.handler? inst.mnemonic = some handler)
    (hmem : (inst.mnemonic, handler) ∈ Exec.systemHandlers) (hp : h.privileged = true) :
    Endures h inst (h.execute table inst) := by
  simp only [execute, hfind]
  simp only [Exec.systemHandlers, List.mem_cons, Prod.mk.injEq, List.not_mem_nil, or_false] at hmem
  rcases hmem with ⟨-, rfl⟩ | ⟨hname, rfl⟩ | ⟨-, rfl⟩ | ⟨hname, rfl⟩ | ⟨hname, rfl⟩ | ⟨-, rfl⟩
  · obtain ⟨t, ht, -⟩ := Exec.environmentCall_of_privileged hp inst
    rw [ht]
    exact endures_of_converts hp fun _ => rfl
  · by_cases hdebugger : h.debugger.isSome = true
    · have hbreak : Exec.environmentBreak inst h = .error .debuggerRequested h := by
        change
          (if h.debugger.isSome then throw ExecError.debuggerRequested else _ : Exec Unit) h = _
        rw [if_pos hdebugger]
        rfl
      rw [hbreak]
      exact .debuggerRequested hname hdebugger ⟨rfl, rfl⟩
    · have hbreak : Exec.environmentBreak inst h = .ok () h := by
        change
          (if h.debugger.isSome then throw ExecError.debuggerRequested else _ : Exec Unit) h = _
        rw [if_neg hdebugger]
        rfl
      rw [hbreak]
      exact .goesOn ⟨rfl, rfl⟩
  · by_cases hmachine : h.privilege = .machine
    · have hreturn : Exec.machineReturn inst h = .ok () h.returnFromTrap := by
        change (if h.privilege = .machine then set h.returnFromTrap else _ : Exec Unit) h = _
        rw [if_pos hmachine]
        rfl
      rw [hreturn]
      exact .goesOn ⟨rfl, rfl⟩
    · have hreturn : Exec.machineReturn inst h = .error (Exec.illegalError inst) h := by
        change (if h.privilege = .machine then set h.returnFromTrap else _ : Exec Unit) h = _
        rw [if_neg hmachine]
        rfl
      rw [hreturn]
      exact endures_of_converts hp fun _ => rfl
  · exact .unimplemented (.inl hname) ⟨rfl, rfl⟩
  · exact .unimplemented (.inr hname) ⟨rfl, rfl⟩
  · exact .goesOn ⟨rfl, rfl⟩

/-- Whatever instruction a privileged hart executes, it goes on, exits through the exit register, or
reports an instruction without a behaviour or a breakpoint. -/
theorem endures_execute (hsets : ∀ s ∈ sets, s ∈ InstructionSet.standard)
    (hbuild : DispatchTable.build sets = .ok table)
    (hfind : table.handler? inst.mnemonic = some handler) (hp : h.privileged = true)
    (hs : h.csrs.Virtual) : Endures h inst (h.execute table inst) := by
  by_cases hname : inst.mnemonic ∈ Exec.systemHandlers.map Prod.fst
  · exact endures_system hfind
      (DispatchTable.mem_systemHandlers_of_handler? hsets hbuild hfind hname) hp
  have hacts := DispatchTable.acts_of_handler? hsets hbuild hfind inst
  have hexits := hacts.exits hname hs
  cases hres : handler inst h with
  | ok a h₁ =>
    simp only [stateAfter, hres] at hexits
    simp only [execute, hfind, hres]
    rcases hexits with hsame | ⟨hcontrols, v, hexits⟩
    · exact .goesOn hsame
    · exact .exits v hcontrols ⟨hexits.machine, hexits.stored, hexits.nonzero, hexits.halted,
        hexits.exitCode⟩
  | error e h₁ =>
    -- what fails has changed nothing, so it has not halted the hart either
    have hsame : h.SameExit h₁ := (hacts.keepsOnError Exec.unseen_sameControl h e h₁ hres).2.2
    have hp₁ : h₁.privileged = true := (frame_of_error hacts hres).1.trans hp
    have hconverts : e.Converts := by
      rcases (hacts.failsWithin h e h₁ hp hres).converts with hconverts | ⟨hsystem, -⟩
      · exact hconverts
      · exact absurd hsystem hname
    obtain ⟨h', hfail, hsame'⟩ := fail_of_converts hp₁ hconverts (some inst)
    simp only [execute, hfind, hres, hfail]
    exact .goesOn (hsame.trans hsame')

/-- The errors of a step of a privileged hart: its cycles are used up, or what it fetched has no
behaviour or asks for the debugger. -/
inductive Ends (h : Hart) : HartError → Prop
  | cycleLimit {limit : Counter} : h.spent = some limit → Ends h (.cycleLimit limit h.pc)
  | unimplemented {b : Hart} {inst : Instruction} : h.fetching? = some b →
    h.fetched? = some inst → inst.mnemonic = "sret" ∨ inst.mnemonic = "uret" →
    Ends h (.unimplemented inst.mnemonic b.pc)
  | debuggerRequested {b : Hart} {inst : Instruction} : h.fetching? = some b →
    h.fetched? = some inst → inst.mnemonic = "ebreak" → h.debugger.isSome →
    Ends h (.debuggerRequested b.pc)

/-- The boundary keeps the kinds of control registers. -/
theorem virtual_atBoundary (hs : h.csrs.Virtual) : h.atBoundary.csrs.Virtual := by
  have hpoll : h.pollTimer.csrs.Virtual := by
    unfold pollTimer
    split
    · exact hs.setRaw _ _
    · exact hs
  unfold atBoundary
  split
  · rcases deliverTrap_eq h.pollTimer with hd | ⟨ev, traps, hd⟩
    · rw [hd]
      exact hpoll
    · rw [hd]
      exact virtual_csrsInTrap (h := { h.pollTimer with traps }) hpoll ev.trap
  · exact hs

/-- A step of a privileged hart ends in no fault, and leaves the exit alone unless it executes a
write to the exit register. -/
structure Survives (table : DispatchTable) (h : Hart) : Prop where
  ends : ∀ err h', h.step table = .error err h' → h.Ends err
  exit : h.SameExit (h.stepped table) ∨ ∃ b inst v, h.fetching? = some b ∧ h.fetched? = some inst ∧
    inst.mnemonic ∈ Exec.csrHandlers.map Prod.fst ∧ b.ExitsWith (h.stepped table) v

theorem stepped_of_ok (hres : h.step table = .ok () h') : h.stepped table = h' := by
  simp only [stepped, stateAfter, hres]

theorem stepped_of_error (hres : h.step table = .error err h') : h.stepped table = h' := by
  simp only [stepped, stateAfter, hres]

/-- A step that succeeds reports no error. -/
theorem ends_of_ok (hres : h.step table = .ok () h') (err : HartError) (k : Hart)
    (heq : h.step table = .error err k) : h.Ends err := by
  rw [hres] at heq
  cases heq

theorem survives_of_ok (hres : h.step table = .ok () h') (hsame : h.SameExit h') :
    Survives table h :=
  ⟨ends_of_ok hres, .inl (stepped_of_ok hres ▸ hsame)⟩

theorem survives_of_error (hres : h.step table = .error err h') (hends : h.Ends err)
    (hsame : h.SameExit h') : Survives table h := by
  refine ⟨fun err' k heq => ?_, .inl (stepped_of_error hres ▸ hsame)⟩
  rw [hres] at heq
  cases heq
  exact hends

/-- The boundary leaves the exit and the debugger alone. -/
theorem sameExit_atBoundary (h : Hart) :
    h.SameExit h.atBoundary ∧ h.atBoundary.debugger = h.debugger := by
  obtain ⟨csrs, traps, timer, privilege, reservation, waiting, pc, hat⟩ := atBoundary_eq h
  rw [hat]
  exact ⟨⟨rfl, rfl⟩, rfl⟩

theorem survives_of_fetching?_eq_none (hb : h.fetching? = none) : Survives table h := by
  rcases step_of_fetching?_eq_none table hb with hres | ⟨limit, hspent, hres⟩ | hres
  · exact survives_of_ok hres ⟨rfl, rfl⟩
  · exact survives_of_error hres (.cycleLimit hspent) ⟨rfl, rfl⟩
  · exact survives_of_ok hres ((sameExit_atBoundary h).1.trans ⟨rfl, rfl⟩)

/-- What becomes of the hart that executes becomes of the hart that steps. -/
theorem survives_of_endures {memory : AddressSpace} (hb : h.fetching? = some b)
    (hfetched : h.fetched? = some inst)
    (hres : Endures (b.executing memory) inst (h.step table)) : Survives table h := by
  have hsame : h.SameExit b ∧ b.debugger = h.debugger := by
    obtain ⟨-, -, -, rfl⟩ := fetching?_eq_some hb
    exact sameExit_atBoundary h
  obtain ⟨hexit, hdebugger⟩ := hsame
  cases hr : h.step table with
  | ok _ h' =>
    rw [hr] at hres
    cases hres with
    | goesOn hsame => exact survives_of_ok hr (hexit.trans hsame)
    | exits v hname hexits =>
      refine ⟨ends_of_ok hr, .inr ⟨b, inst, v, hb, hfetched, hname, ?_⟩⟩
      rw [stepped_of_ok hr]
      exact ⟨hexits.machine, hexits.stored, hexits.nonzero, hexits.halted, hexits.exitCode⟩
  | error err h' =>
    rw [hr] at hres
    cases hres with
    | unimplemented hname hsame =>
      exact survives_of_error hr (.unimplemented hb hfetched hname) (hexit.trans hsame)
    | debuggerRequested hname hsome hsame =>
      exact survives_of_error hr (.debuggerRequested hb hfetched hname (hdebugger ▸ hsome))
        (hexit.trans hsame)

section Table

variable (hsets : ∀ s ∈ sets, s ∈ InstructionSet.standard)
  (hbuild : DispatchTable.build sets = .ok table)

include hsets hbuild

theorem stepwise_keepsKinds : Stepwise table Exec.KeepsKinds where
  refl _ := id
  trans h₁₂ h₂₃ hs := h₂₃ (h₁₂ hs)
  frame _ _ _ _ _ _ _ _ _ := id
  boundary _ := virtual_atBoundary
  fetch _ _ := id
  handler _ _ hfind inst := (DispatchTable.acts_of_handler? hsets hbuild hfind inst).keepsKinds
  raise _ _ := id

theorem survives_step (hp : h.privileged = true) (hs : h.csrs.Virtual) (hknows : h.Knows table) :
    Survives table h := by
  cases hb : h.fetching? with
  | none => exact survives_of_fetching?_eq_none hb
  | some b =>
    have hstep : h.step table = b.fetchExecute table := step_of_fetching? hb
    have hframe : h.SameExit b ∧ b.csrs.Virtual ∧ b.privileged = true := by
      have hbp := (frame_of_fetching? hb).1
      obtain ⟨-, -, -, rfl⟩ := fetching?_eq_some hb
      exact ⟨(sameExit_atBoundary h).1, virtual_atBoundary hs, hbp.trans hp⟩
    obtain ⟨hexit, hbs, hbp⟩ := hframe
    cases hfetch : AddressSpace.fetch b.pc b.memory with
    | error e memory =>
      obtain ⟨h', hfail, hfailed⟩ := fail_of_converts (e := .memory e)
        (h := { b with cycle := b.cycle + 1, instructionPc := b.pc, memory })
        hbp (fun _ => rfl) none
      simp only [fetchExecute, hfetch, hfail] at hstep
      exact survives_of_ok hstep (hexit.trans hfailed)
    | ok inst memory =>
      have hfetched : h.fetched? = some inst := by
        simp only [fetched?, hb, Option.bind_some, hfetch]
      have hexecute : h.step table = (b.executing memory).execute table inst := by
        simp only [hstep, fetchExecute, hfetch, executing]
      obtain ⟨handler, hfind⟩ := Option.isSome_iff_exists.1 (hknows inst hfetched)
      have hres : Endures (b.executing memory) inst (h.step table) := by
        rw [hexecute]
        exact endures_execute hsets hbuild hfind hbp hbs
      exact survives_of_endures hb hfetched hres

/-- On every run of a privileged hart, a step that knows the mnemonic of what it fetches succeeds,
or reports that the cycles are used up, that `sret` or `uret` has no behaviour, or that `ebreak`
asks for the attached debugger. It reports no fault. It halts the hart only by an instruction of
machine mode that stores a word other than zero in the exit register, and that word is the exit
code. -/
theorem privileged_survives (hp : h.privileged = true) (hs : h.csrs.Virtual)
    (hreaches : Reaches table h k) (hknows : k.Knows table) :
    (∀ err k', k.step table = .error err k' → k.Ends err) ∧
      (k.halted = false → (k.stepped table).halted = true →
        ∃ b inst v, k.fetching? = some b ∧ k.fetched? = some inst ∧
          inst.mnemonic ∈ Exec.csrHandlers.map Prod.fst ∧ b.ExitsWith (k.stepped table) v) := by
  have hkp : k.privileged = true :=
    ((stepwise_privileged_of_standard hsets hbuild).reaches hreaches).trans hp
  have hks : k.csrs.Virtual := (stepwise_keepsKinds hsets hbuild).reaches hreaches hs
  obtain ⟨hends, hexit⟩ := survives_step hsets hbuild hkp hks hknows
  refine ⟨hends, fun hrunning hhalted => ?_⟩
  rcases hexit with hsame | hexits
  · rw [hsame.1, hrunning] at hhalted
    cases hhalted
  · exact hexits

end Table

/-- A hart in machine mode at an `sret`, after which it is to exit with code 7. -/
def exiting : Hart :=
  { memory := (AddressSpace.empty true 0x1000).insertSection
      (.ofWords ".text" 0 .code [0x10200073, 0x7893D073])
    privilege := .machine
    privileged := true }

/-- The return without a behaviour is reported as such, and the next step exits. -/
theorem privileged_survives_of_exiting :
    (∃ h', exiting.step systemTable = .error (.unimplemented "sret" 0) h') ∧
      exiting.Ends (.unimplemented "sret" 0) ∧
      (∃ b inst v, (exiting.stepped systemTable).fetching? = some b ∧
        (exiting.stepped systemTable).fetched? = some inst ∧
        inst.mnemonic ∈ Exec.csrHandlers.map Prod.fst ∧
        b.ExitsWith ((exiting.stepped systemTable).stepped systemTable) v) ∧
      ((exiting.stepped systemTable).stepped systemTable).exitCode = some 7 := by
  have hsurvives := fun k => privileged_survives (h := exiting) (k := k) systemSets_standard
    build_systemSets rfl Csr.Store.virtual_initial
  have hfirst : ∃ h', exiting.step systemTable = .error (.unimplemented "sret" 0) h' :=
    ⟨exiting.stepped systemTable, rfl⟩
  obtain ⟨h', hstep⟩ := hfirst
  refine ⟨⟨h', hstep⟩, (hsurvives exiting .refl (by decide +kernel)).1 _ _ hstep, ?_,
    by decide +kernel⟩
  exact (hsurvives _ (.step .refl) (by decide +kernel)).2 (by decide +kernel) (by decide +kernel)

end Hart
end Riscv32
