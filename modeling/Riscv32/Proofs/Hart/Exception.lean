import Riscv32.Proofs.Hart.Stepwise

/-!
# Exceptions at the next boundary

On a privileged hart a failure becomes a pending trap, and the next step takes a pending trap
before it fetches. Between the two the timer is polled, and if it fires while interrupts are
enabled, its interrupt is the more recent trap and is taken in place of the exception: the
exception is then taken from within the handler of the interrupt, and what it saves is not the
address of the instruction that failed. In all other cases the next step takes the exception, at
the address of that instruction.

## Main definitions

* `Hart.Run table c h` — steps and clock advances lead from reset to `h`.
* `Hart.exception? table b` — what the fetch, or else the fetched instruction, fails with.
* `Hart.Takes table h t p d` — the next step of `h` takes the trap `t` at the address `p`, and
  then fetches with the hart `d`.

## Main statements

* `Hart.fetchExecute_of_exception?`, the hart after a failure.
* `Hart.deliverTrap_of_newest`, the choice between an exception and the timer.
* `Hart.exception_at_next_boundary`, the whole, for every run.
-/
namespace Riscv32.Hart

variable {table : DispatchTable} {sets : List InstructionSet} {c : Config} {h h' b d : Hart}
  {t : Trap} {e : ExecError} {q : TrapQueue}

/-- The harts that steps and clock advances lead to from reset, whatever the memory holds. -/
inductive Run (table : DispatchTable) (c : Config) : Hart → Prop
  | reset (memory : AddressSpace) (entry : Option Word) :
    Run table c (({ ofConfig c with memory } : Hart).launch entry).2
  | step {h : Hart} : Run table c h → Run table c (h.stepped table)
  | elapse {h : Hart} (ticks : Counter) : Run table c h → Run table c (h.elapse ticks)

/-- The trap that the fetch, or else the fetched instruction, fails with. A trap that has to name
the instruction names it by its encoding. -/
def exception? (table : DispatchTable) (b : Hart) : Option Trap :=
  match AddressSpace.fetch b.pc b.memory with
  | .error e _ => some e.trap
  | .ok inst memory =>
    match table.handler? inst.mnemonic with
    | none => none
    | some handler =>
      match handler inst { b with
          cycle := b.cycle + 1, instructionPc := b.pc, memory, pc := b.pc + 4 } with
      | .ok _ _ => none
      | .error e _ => e.trap? (inst.encoding?.getD 0)

/-- The next step takes a trap and saves the address `p` with its cause and value, before it
fetches with `d`. -/
structure Takes (table : DispatchTable) (h : Hart) (t : Trap) (p : Word) (d : Hart) : Prop where
  delivered : h.pollTimer.deliverTrap = (some (.machine t), d)
  mepc : d.csrs.raw Csr.mepc = p
  mcause : d.csrs.raw Csr.mcause = t.mcause
  mtval : d.csrs.raw Csr.mtval = t.tval
  next : h.step table = d.fetchExecute table

/-- The timer fires at the next boundary while interrupts are enabled. -/
def timerInterrupts (h : Hart) : Prop :=
  h.timer.fires h.clock.now = true ∧ h.csrs.mstatusField .mie ≠ 0

instance (h : Hart) : Decidable h.timerInterrupts := inferInstanceAs (Decidable (_ ∧ _))

/-! ## Failures -/

/-- A hart whose failure converts to a trap goes back to the instruction, with the trap queued. -/
theorem fail_of_trap? {inst : Option Instruction} (hp : h.privileged = true)
    (ht : e.trap? ((inst.bind (·.encoding?)).getD 0) = some t) :
    h.fail inst e = .ok () (({ h with pc := h.instructionPc } : Hart).raise t) := by
  cases e with
  | unimplemented mnemonic => cases ht
  | debuggerRequested => cases ht
  | _ => simp only [fail, hp, ht]

/-- What an instruction that fails leaves alone. -/
theorem frame_of_error {can : Exec.Powers} {x : Exec Unit} (hx : Exec.Acts can x)
    (he : x h = .error e h') :
    h'.privileged = h.privileged ∧ h'.instructionPc = h.instructionPc ∧ h'.traps = h.traps ∧
      h'.halted = h.halted := by
  have hunseen : Exec.Unseen can.drops fun h h' => h'.halted = h.halted :=
    { refl := fun _ => rfl
      trans := fun h₁₂ h₂₃ => h₂₃.trans h₁₂
      markRead := fun _ _ => rfl
      search := fun _ _ _ _ => rfl
      reservation := fun _ _ => rfl
      syscall := fun _ _ => rfl }
  have hsetting : h'.setting = h.setting := (hx.setting.onError h e h' he).symm
  have hpriv := congrArg Hart.privileged hsetting
  have hpc := congrArg Hart.instructionPc hsetting
  have htraps := congrArg Hart.traps hsetting
  exact ⟨hpriv, hpc, htraps, hx.keepsOnError hunseen h e h' he⟩

/-- After a failure the hart is back at the instruction, with the trap queued behind the others. -/
theorem fetchExecute_of_exception? (hsets : ∀ s ∈ sets, s ∈ InstructionSet.standard)
    (htable : DispatchTable.build sets = .ok table) (hp : b.privileged = true)
    (ht : b.exception? table = some t) :
    ∃ h', b.fetchExecute table = .ok () h' ∧ h'.privileged = true ∧ h'.pc = b.pc ∧
      h'.traps = b.traps.push (.machine t) ∧ h'.halted = b.halted := by
  cases hfetch : AddressSpace.fetch b.pc b.memory with
  | error e memory =>
    simp only [exception?, hfetch] at ht
    simp only [fetchExecute, hfetch]
    exact ⟨_, fail_of_trap? hp ht, hp, rfl, rfl, rfl⟩
  | ok inst memory =>
    cases hhandler : table.handler? inst.mnemonic with
    | none =>
      simp only [exception?, hfetch, hhandler] at ht
      cases ht
    | some handler =>
      have hacts := DispatchTable.acts_of_handler? hsets htable hhandler inst
      simp only [exception?, hfetch, hhandler] at ht
      simp only [fetchExecute, hfetch, execute, hhandler]
      split at ht
      case h_1 => cases ht
      case h_2 e h₁ hfail =>
        obtain ⟨hpriv, hpc, htraps, hhalted⟩ := frame_of_error hacts hfail
        simp only [hfail]
        refine ⟨_, fail_of_trap? (hpriv.trans hp) ht, hpriv.trans hp, hpc, ?_, hhalted⟩
        change h₁.traps.push (.machine t) = _
        rw [htraps]

/-! ## Taking a trap -/

theorem raw_csrsInTrap (h : Hart) (t : Trap) :
    (h.csrsInTrap t).raw Csr.mepc = h.pc ∧ (h.csrsInTrap t).raw Csr.mcause = t.mcause ∧
      (h.csrsInTrap t).raw Csr.mtval = t.tval := by
  have hmepc : Csr.mip ≠ Csr.mepc ∧ Csr.mtval ≠ Csr.mepc ∧ Csr.mcause ≠ Csr.mepc := by decide
  have hmcause : Csr.mip ≠ Csr.mcause ∧ Csr.mtval ≠ Csr.mcause := by decide
  have hmtval : Csr.mip ≠ Csr.mtval := by decide
  simp only [csrsInTrap]
  split <;> simp [hmepc, hmcause, hmtval]

/-- Whatever is delivered is taken by the hart that polled its timer. -/
theorem entered_of_deliverTrap {ev : TrapEvent} (hd : h.pollTimer.deliverTrap = (some ev, d)) :
    ∃ traps, d = ({ h.pollTimer with traps } : Hart).enterTrap ev := by
  rcases deliverTrap_eq h.pollTimer with hnone | ⟨ev', traps, hsome⟩
  · rw [hnone] at hd
    cases hd
  · rw [hsome] at hd
    cases hd
    exact ⟨traps, rfl⟩

/-- A hart that takes a trap fetches in the same step. -/
theorem fetching?_of_deliverTrap {ev : TrapEvent} (hp : h.privileged = true)
    (hh : h.halted = false) (hs : h.spent = none)
    (hd : h.pollTimer.deliverTrap = (some ev, d)) : h.fetching? = some d := by
  have hat : h.atBoundary = d := by rw [atBoundary, if_pos hp, hd]
  obtain ⟨traps, rfl⟩ := entered_of_deliverTrap hd
  simp only [fetching?, hh, hs, hat, enterTrap, Option.isSome_none, Bool.or_self, Bool.false_and,
    Bool.false_eq_true, if_false]

/-- Whatever trap is delivered, the next step takes it. -/
theorem takes_of_deliverTrap (hp : h.privileged = true) (hh : h.halted = false)
    (hs : h.spent = none) (hd : h.pollTimer.deliverTrap = (some (.machine t), d)) :
    Takes table h t h.pc d := by
  have hb := fetching?_of_deliverTrap hp hh hs hd
  obtain ⟨csrs, traps, timer, hpoll, -⟩ := pollTimer_eq h
  obtain ⟨traps', rfl⟩ := entered_of_deliverTrap hd
  obtain ⟨hmepc, hmcause, hmtval⟩ := raw_csrsInTrap { h.pollTimer with traps := traps' } t
  refine ⟨hd, hmepc.trans ?_, hmcause, hmtval, step_of_fetching? hb⟩
  rw [hpoll]

theorem deliverTrap_of_pop? {ev : TrapEvent} (traps : TrapQueue)
    (hpop : h.traps.pop? (h.csrs.mstatusField .mie != 0) = some (ev, traps)) :
    h.deliverTrap = (some ev, ({ h with traps } : Hart).enterTrap ev) := by
  rw [deliverTrap, hpop]

theorem mstatusField_pollTimer (h : Hart) (f : MstatusField) :
    h.pollTimer.csrs.mstatusField f = h.csrs.mstatusField f := by
  obtain ⟨csrs, traps, timer, hpoll, hmstatus⟩ := pollTimer_eq h
  rw [hpoll, Csr.Store.mstatusField, hmstatus]
  rfl

theorem traps_pollTimer (h : Hart) : h.pollTimer.traps =
    if h.timer.fires h.clock.now then h.traps.push (.machine .machineTimerInterrupt)
    else h.traps := by
  rw [pollTimer]
  split <;> rfl

/-- An exception that was raised last is delivered, unless the timer interrupts. -/
theorem deliverTrap_of_newest (hq : h.traps = q.push (.machine t)) (ht : t.isInterrupt = false)
    (htimer : ¬ h.timerInterrupts) : ∃ d, h.pollTimer.deliverTrap = (some (.machine t), d) := by
  have hdeliverable : ∀ enabled, TrapQueue.deliverable enabled (.machine t) = true := by
    intro enabled
    simp [TrapQueue.deliverable, TrapEvent.machine, ht]
  have hpop := TrapQueue.pop?_push (hdeliverable (h.csrs.mstatusField .mie != 0)) q
  by_cases hfires : h.timer.fires h.clock.now = true
  · -- the timer fires, so its interrupt is held back
    have hmie : h.csrs.mstatusField .mie = 0 := by
      by_contra hne
      exact htimer ⟨hfires, hne⟩
    have hheld : TrapQueue.deliverable (h.csrs.mstatusField .mie != 0)
        (.machine .machineTimerInterrupt) = false := by
      rw [hmie]
      rfl
    refine ⟨_, deliverTrap_of_pop? (q.push (.machine .machineTimerInterrupt)) ?_⟩
    rw [mstatusField_pollTimer, traps_pollTimer, if_pos hfires, hq,
      TrapQueue.pop?_push_of_held hheld, hpop]
    rfl
  · refine ⟨_, deliverTrap_of_pop? q ?_⟩
    rw [mstatusField_pollTimer, traps_pollTimer, if_neg hfires, hq, hpop]

/-- The timer interrupt comes before whatever was pending, all of which stays pending. -/
theorem deliverTrap_of_timerInterrupts (htimer : h.timerInterrupts) :
    ∃ d, h.pollTimer.deliverTrap = (some (.machine .machineTimerInterrupt), d) ∧
      d.traps = h.traps := by
  obtain ⟨hfires, hmie⟩ := htimer
  have hdeliverable : TrapQueue.deliverable (h.csrs.mstatusField .mie != 0)
      (.machine .machineTimerInterrupt) = true := by
    rw [TrapQueue.deliverable, bne_iff_ne.2 hmie]
    rfl
  refine ⟨_, deliverTrap_of_pop? h.traps ?_, rfl⟩
  rw [mstatusField_pollTimer, traps_pollTimer, if_pos hfires, TrapQueue.pop?_push hdeliverable]

/-! ## Runs -/

theorem foldl_elapse (ticks : List Counter) (h : Hart) :
    ∃ clock, ticks.foldl elapse h = { h with clock } := by
  induction ticks generalizing h with
  | nil => exact ⟨h.clock, rfl⟩
  | cons tick rest ih =>
    obtain ⟨clock, hrest⟩ := ih (h.elapse tick)
    refine ⟨clock, ?_⟩
    rw [List.foldl_cons, hrest, elapse]

/-- A hart that leaves reset privileged stays privileged. -/
theorem Run.privileged (hsets : ∀ s ∈ sets, s ∈ InstructionSet.standard)
    (htable : DispatchTable.build sets = .ok table) (hc : c.general.privileged = true)
    (hrun : Run table c h) : h.privileged = true := by
  induction hrun with
  | reset memory entry =>
    have hp : (ofConfig c).privileged = true := hc
    simp only [launch, hp, if_true]
  | step _ ih => exact ((stepwise_privileged_of_standard hsets htable).stepped _).trans ih
  | elapse ticks _ ih =>
    obtain ⟨clock, hclock⟩ := elapse_eq ticks _
    rw [hclock]
    exact ih

/-- On a run of a privileged hart, let an instruction or its fetch fail in some step with an error
that converts to an exception, and let any time pass after that step. The step itself succeeds,
and the next one, if the cycle budget allows it, takes exactly that exception, at the address of
the failing instruction and before it fetches anything, precisely if the timer does not interrupt
at that boundary. If it does, the next step takes the timer interrupt at that address, and the
exception stays the most recent pending trap. -/
theorem exception_at_next_boundary (hsets : ∀ s ∈ sets, s ∈ InstructionSet.standard)
    (htable : DispatchTable.build sets = .ok table) (hc : c.general.privileged = true)
    (hrun : Run table c h) (hb : h.fetching? = some b) (ht : b.exception? table = some t)
    (hexception : t.isInterrupt = false) (ticks : List Counter) :
    ∃ h', h.step table = .ok () h' ∧ (ticks.foldl elapse h').halted = false ∧
      ((ticks.foldl elapse h').spent = none →
        ((∃ d, Takes table (ticks.foldl elapse h') t b.pc d) ↔
          ¬ (ticks.foldl elapse h').timerInterrupts) ∧
        ((ticks.foldl elapse h').timerInterrupts →
          ∃ d, Takes table (ticks.foldl elapse h') .machineTimerInterrupt b.pc d ∧
            d.traps = b.traps.push (.machine t))) := by
  obtain ⟨hbpriv, hbhalted⟩ := frame_of_fetching? hb
  obtain ⟨h', hres, hpriv, hpc, htraps, hhalted⟩ := fetchExecute_of_exception? hsets htable
    (hbpriv.trans (hrun.privileged hsets htable hc)) ht
  obtain ⟨clock, hclock⟩ := foldl_elapse ticks h'
  refine ⟨h', (step_of_fetching? hb).trans hres, ?_⟩
  rw [hclock]
  refine ⟨hhalted.trans hbhalted, ?_⟩
  intro hspent
  rw [← hpc]
  have htakes : ∀ {t d}, ({ h' with clock } : Hart).pollTimer.deliverTrap = (some (.machine t), d) →
      Takes table { h' with clock } t h'.pc d := by
    intro t d hd
    exact takes_of_deliverTrap hpriv (hhalted.trans hbhalted) hspent hd
  refine ⟨⟨?_, ?_⟩, ?_⟩
  · rintro ⟨d, hd⟩ htimer
    obtain ⟨d', hd', -⟩ := deliverTrap_of_timerInterrupts htimer
    rw [hd.delivered] at hd'
    cases hd'
    cases hexception
  · intro htimer
    obtain ⟨d, hd⟩ := deliverTrap_of_newest (h := { h' with clock }) htraps hexception htimer
    exact ⟨d, htakes hd⟩
  · intro htimer
    obtain ⟨d, hd, hdtraps⟩ := deliverTrap_of_timerInterrupts htimer
    exact ⟨d, htakes hd, hdtraps.trans htraps⟩

/-! ## A run in which the timer comes first -/

/-- The sets that the run needs. -/
def systemSets : List InstructionSet := [.controlRegister, .system]

/-- The table of these sets. -/
def systemTable : DispatchTable := (DispatchTable.build systemSets).toOption.getD {}

theorem build_systemSets : DispatchTable.build systemSets = .ok systemTable :=
  DispatchTable.build_eq_ok (by decide +kernel)

theorem systemSets_standard : ∀ s ∈ systemSets, s ∈ InstructionSet.standard := by
  simp [systemSets, InstructionSet.standard]

/-- A privileged hart with default settings. -/
def privilegedConfig : Config := { general := { privileged := true } }

/-- Code that arms the timer for tick 5, enables interrupts and calls the environment. -/
def timedCall : AddressSpace :=
  (AddressSpace.empty true 0x1000).insertSection
    (.ofWords ".text" 0 .code [0x32205073, 0x3212D073, 0x30045073, 0x00000073])

/-- The hart after reset and three steps of that code. -/
def beforeCall : Hart :=
  ((((({ ofConfig privilegedConfig with memory := timedCall } : Hart).launch none).2.stepped
    systemTable).stepped systemTable).stepped systemTable)

/-- The hart that fetches the environment call. -/
def atCall : Hart := beforeCall.fetching?.getD beforeCall

theorem run_beforeCall : Run systemTable privilegedConfig beforeCall :=
  .step (.step (.step (.reset timedCall none)))

theorem fetching?_beforeCall : beforeCall.fetching? = some atCall := by
  have hsome : beforeCall.fetching?.isSome = true := by decide +kernel
  rw [atCall]
  cases hb : beforeCall.fetching? with
  | some b => rfl
  | none =>
    rw [hb] at hsome
    cases hsome

theorem exception?_atCall : atCall.exception? systemTable = some .environmentCallFromMMode := by
  decide +kernel

/-- The timer has not fired at the end of the call, and fires once enough ticks have passed. -/
theorem timerInterrupts_afterCall :
    ¬ (beforeCall.stepped systemTable).timerInterrupts ∧
      ((beforeCall.stepped systemTable).elapse 6).timerInterrupts := by
  decide +kernel

/-- Without a clock advance the next step takes the call, and with one it takes the timer
interrupt. -/
theorem exception_of_timedCall :
    Run systemTable privilegedConfig beforeCall ∧ atCall.pc = 12 ∧
      atCall.exception? systemTable = some .environmentCallFromMMode ∧
      (∃ d, Takes systemTable (beforeCall.stepped systemTable) .environmentCallFromMMode 12 d) ∧
      ∃ d, Takes systemTable ((beforeCall.stepped systemTable).elapse 6) .machineTimerInterrupt
        12 d := by
  have hpc : atCall.pc = 12 := by decide +kernel
  have hnext := exception_at_next_boundary systemSets_standard build_systemSets rfl run_beforeCall
    fetching?_beforeCall exception?_atCall rfl
  rw [hpc] at hnext
  refine ⟨run_beforeCall, hpc, exception?_atCall, ?_, ?_⟩
  · obtain ⟨h', hstep, -, htakes⟩ := hnext []
    have heq : beforeCall.stepped systemTable = h' := by simp only [stepped, stateAfter, hstep]
    rw [heq]
    exact (htakes (by rw [← heq]; decide +kernel)).1.2 (heq ▸ timerInterrupts_afterCall.1)
  · obtain ⟨h', hstep, -, htakes⟩ := hnext [6]
    have heq : beforeCall.stepped systemTable = h' := by simp only [stepped, stateAfter, hstep]
    rw [heq]
    have hfirst := (htakes (by rw [← heq]; decide +kernel)).2
    obtain ⟨d, hd, -⟩ := hfirst (heq ▸ timerInterrupts_afterCall.2)
    exact ⟨d, hd⟩

/-- The exception is not taken at the next boundary in all runs. -/
theorem not_exception_at_every_boundary :
    ¬ ∀ (sets : List InstructionSet) (table : DispatchTable) (c : Config) (h b : Hart) (t : Trap)
      (ticks : Counter), (∀ s ∈ sets, s ∈ InstructionSet.standard) →
      DispatchTable.build sets = .ok table → c.general.privileged = true → Run table c h →
      h.fetching? = some b → b.exception? table = some t → t.isInterrupt = false →
      ((h.stepped table).elapse ticks).spent = none →
      ∃ d, Takes table ((h.stepped table).elapse ticks) t b.pc d := by
  intro hall
  obtain ⟨d, hd⟩ := hall systemSets systemTable privilegedConfig beforeCall atCall _ 6
    systemSets_standard build_systemSets rfl run_beforeCall fetching?_beforeCall exception?_atCall
    rfl (by decide +kernel)
  have hfirst : ((beforeCall.stepped systemTable).elapse 6).pollTimer.deliverTrap.1 =
      some (.machine .machineTimerInterrupt) := by decide +kernel
  rw [hd.delivered] at hfirst
  cases hfirst

end Riscv32.Hart
