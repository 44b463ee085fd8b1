import Riscv32.Proofs.Hart.Ledger
import Riscv32.Proofs.Hart.Trail

/-!
# Waiting for interrupts

A hart that waits polls its timer in every step. While no trap is queued the step only counts the
cycle. As soon as one is queued the hart goes on in the same step: in the handler if the trap may be
delivered, or else behind the instruction that it waited at. So it does not matter whether an
interrupt comes before that instruction, while the hart waits or in the cycle in which its timer
fires, and whether interrupts are enabled.

## Main definitions

* `Hart.Waits h` — the next step of `h` is one of a privileged hart that waits.
* `Hart.Handles h e d` — `d` is where the trap `e` takes the hart `h`.
* `Hart.WaitStep table h` — what the next step of a hart that waits does.
* `Hart.Stalls table h k` — the hart `h` waits until it is `k`, whatever the host does meanwhile.

## Main statements

* `Hart.waitStep`, the step.
* `Hart.Stalls.frame`, any number of steps without a trap.
* `Hart.no_wakeup_lost`, from the instruction that waits to the first one after it.
-/
namespace Riscv32.Hart

variable {table : DispatchTable} {sets : List InstructionSet} {h k d x : Hart} {e : TrapEvent}
  {inst : Instruction}

/-- A privileged hart waits for an interrupt and has a step to make. -/
structure Waits (h : Hart) : Prop where
  privileged : h.privileged = true
  running : h.halted = false
  unspent : h.spent = none
  waiting : h.waiting = true

/-- The hart `d` is at the handler of a trap that the hart `h` took, and nothing but what the timer
and the trap concern has changed. -/
structure Handles (h : Hart) (e : TrapEvent) (d : Hart) : Prop where
  frame : ∃ csrs traps timer, d = { h with
    csrs, traps, timer, privilege := e.target, reservation := none, waiting := false
    pc := h.trapVector e.trap }
  mepc : d.csrs.raw Csr.mepc = h.pc
  mcause : d.csrs.raw Csr.mcause = e.trap.mcause
  mtval : d.csrs.raw Csr.mtval = e.trap.tval

/-- What the next step of a hart that waits does, by the traps that are queued after the poll. -/
inductive WaitStep (table : DispatchTable) (h : Hart) : Prop
  | stalls : h.pollTimer.traps.toList = [] →
    h.step table = .ok () { h with cycle := h.cycle + 1 } → WaitStep table h
  | handles (e : TrapEvent) (d : Hart) : e ∈ h.pollTimer.traps.toList → h.Eligible e →
    Handles h e d → h.step table = d.fetchExecute table → WaitStep table h
  | goesOn (b : Hart) : h.pollTimer.traps.toList ≠ [] →
    (∀ e ∈ h.pollTimer.traps.toList, ¬ h.Eligible e) →
    b = { h.pollTimer with waiting := false } → b.pc = h.pc →
    h.step table = b.fetchExecute table → WaitStep table h

/-! ## The step -/

theorem pc_pollTimer (h : Hart) : h.pollTimer.pc = h.pc := by
  obtain ⟨csrs, traps, timer, hpoll, -⟩ := pollTimer_eq h
  rw [hpoll]

/-- A poll does not move the handlers. -/
theorem trapVector_pollTimer (h : Hart) (t : Trap) : h.pollTimer.trapVector t = h.trapVector t := by
  have hmtvec : h.pollTimer.csrs.raw Csr.mtvec = h.csrs.raw Csr.mtvec := by
    rcases raw_pollTimer h Csr.mtvec with hsame | ⟨-, hmip, -⟩
    · exact hsame
    · exact absurd hmip (by decide)
  rw [trapVector, trapVector, hmtvec]

/-- What is delivered takes the hart to its handler. -/
theorem handles_of_deliverTrap (hd : h.pollTimer.deliverTrap = (some e, d)) : Handles h e d := by
  obtain ⟨traps, rfl⟩ := entered_of_deliverTrap hd
  obtain ⟨hmepc, hmcause, hmtval⟩ := raw_csrsInTrap { h.pollTimer with traps } e.trap
  refine ⟨?_, hmepc.trans (pc_pollTimer h), hmcause, hmtval⟩
  obtain ⟨csrs, traps', timer, hpoll, -⟩ := pollTimer_eq h
  refine ⟨({ h.pollTimer with traps } : Hart).csrsInTrap e.trap, traps, timer, ?_⟩
  rw [enterTrap, ← trapVector_pollTimer h, hpoll]
  rfl

/-- A poll that leaves the queue empty leaves all of the hart alone. -/
theorem pollTimer_of_toList_eq_nil (hnil : h.pollTimer.traps.toList = []) : h.pollTimer = h := by
  rw [traps_pollTimer] at hnil
  split at hnil
  case isTrue =>
    rw [TrapQueue.toList_push] at hnil
    exact absurd hnil (List.append_ne_nil_of_right_ne_nil _ (List.cons_ne_nil _ _))
  case isFalse hfires => rw [pollTimer, if_neg hfires]

/-- A trap that is held back is an interrupt, and so ends a wait. -/
theorem hasInterrupt_of_not_eligible {q : TrapQueue} (he : e ∈ q.toList) (hheld : ¬ h.Eligible e) :
    q.hasInterrupt = true := by
  rw [TrapQueue.hasInterrupt, List.any_eq_true]
  refine ⟨e, List.mem_reverse.1 he, ?_⟩
  by_contra hnot
  exact hheld fun hinterrupt => absurd hinterrupt hnot

theorem eligible_pollTimer : h.pollTimer.Eligible e ↔ h.Eligible e := by
  rw [Eligible, Eligible, mstatusField_pollTimer]

theorem Waits.step_eq (hw : Waits h) (table : DispatchTable) : h.step table =
    if h.atBoundary.waiting && !h.atBoundary.traps.hasInterrupt then
      .ok () { h.atBoundary with cycle := h.atBoundary.cycle + 1 }
    else ({ h.atBoundary with waiting := false } : Hart).fetchExecute table := by
  rw [step, if_neg (Bool.eq_false_iff.1 hw.running)]
  simp only [hw.unspent]

/-- With an empty queue the hart waits on. -/
theorem Waits.step_of_empty (hw : Waits h) (table : DispatchTable)
    (hqueue : h.pollTimer.traps.toList = []) :
    h.step table = .ok () { h with cycle := h.cycle + 1 } := by
  have hpoll := pollTimer_of_toList_eq_nil hqueue
  rw [hpoll] at hqueue
  have hnewest : h.traps.newestFirst = [] := List.reverse_eq_nil_iff.1 hqueue
  have hat : h.atBoundary = h := by
    rw [atBoundary, if_pos hw.privileged, hpoll, deliverTrap, TrapQueue.pop?, hnewest]
    rfl
  have hwait : (h.waiting && !h.traps.hasInterrupt) = true := by
    rw [hw.waiting, TrapQueue.hasInterrupt, hnewest]
    rfl
  rw [hw.step_eq, hat, if_pos hwait]

/-- If all that is queued is held back, the hart goes on where it is. -/
theorem Waits.step_of_held (hw : Waits h) (table : DispatchTable)
    (hd : h.pollTimer.deliverTrap = (none, h.pollTimer)) (he : e ∈ h.pollTimer.traps.toList) :
    h.step table = ({ h.pollTimer with waiting := false } : Hart).fetchExecute table := by
  have hat : h.atBoundary = h.pollTimer := by rw [atBoundary, if_pos hw.privileged, hd]
  have hinterrupt : h.pollTimer.traps.hasInterrupt = true :=
    hasInterrupt_of_not_eligible he (not_eligible_of_deliverTrap (congrArg Prod.fst hd) e he)
  rw [hw.step_eq, hat, hinterrupt, Bool.not_true, Bool.and_false, if_neg Bool.false_ne_true]

theorem waitStep (table : DispatchTable) (hw : Waits h) : WaitStep table h := by
  rcases deliverTrap_eq h.pollTimer with hd | ⟨e, traps, hd⟩
  · cases hqueue : h.pollTimer.traps.toList with
    | nil => exact .stalls hqueue (hw.step_of_empty table hqueue)
    | cons e rest =>
      have he : e ∈ h.pollTimer.traps.toList := hqueue ▸ List.mem_cons_self
      refine .goesOn _ (List.ne_nil_of_mem he) ?_ rfl (pc_pollTimer h) (hw.step_of_held table hd he)
      intro f hf
      rw [← eligible_pollTimer]
      exact not_eligible_of_deliverTrap (congrArg Prod.fst hd) f hf
  · obtain ⟨heligible, older, newer, hqueue, -, -⟩ := deliverTrap_eq_some hd
    have hfetching := fetching?_of_deliverTrap hw.privileged hw.running hw.unspent hd
    refine .handles e _ ?_ (eligible_pollTimer.1 heligible) (handles_of_deliverTrap hd)
      (step_of_fetching? hfetching)
    rw [hqueue]
    exact List.mem_append_right older List.mem_cons_self

/-! ## From the wait to the next instruction -/

/-- The hart `h` waits until it is `k`. No trap is queued at any boundary before, but the host may
move the clock and raise traps. -/
inductive Stalls (table : DispatchTable) (h : Hart) : Hart → Prop
  | refl : Stalls table h h
  | step {k : Hart} : Stalls table h k → k.spent = none → k.pollTimer.traps.toList = [] →
    Stalls table h (k.stepped table)
  | elapse {k : Hart} (ticks : Counter) : Stalls table h k → Stalls table h (k.elapse ticks)
  | raise {k : Hart} (t : Trap) : Stalls table h k → Stalls table h (k.raise t)

/-- A hart that waits changes in its cycle, its clock and the traps that the host raises alone. -/
theorem Stalls.frame (hp : h.privileged = true) (hh : h.halted = false) (hw : h.waiting = true)
    (hstalls : Stalls table h k) : ∃ cycle clock traps, k = { h with cycle, clock, traps } := by
  induction hstalls with
  | refl => exact ⟨_, _, _, rfl⟩
  | @step k _ hspent hqueue ih =>
    obtain ⟨cycle, clock, traps, rfl⟩ := ih
    have hwaits : Waits { h with cycle, clock, traps } := ⟨hp, hh, hspent, hw⟩
    rw [stepped_of_ok (hwaits.step_of_empty table hqueue)]
    exact ⟨_, _, _, rfl⟩
  | elapse ticks _ ih =>
    obtain ⟨cycle, clock, traps, rfl⟩ := ih
    exact ⟨_, _, _, rfl⟩
  | raise t _ ih =>
    obtain ⟨cycle, clock, traps, rfl⟩ := ih
    exact ⟨_, _, _, rfl⟩

/-- The instruction that waits leaves a privileged hart waiting, with the instruction behind it as
the next one. -/
theorem stepped_of_wfi (hbuild : DispatchTable.build sets = .ok table) (hsystem : .system ∈ sets)
    (hp : h.privileged = true) (hx : h.executing? = some (inst, x))
    (hname : inst.mnemonic = "wfi") :
    h.stepped table = { x with waiting := true, instret := x.instret + 1 } ∧
      x.privileged = true ∧ x.halted = false ∧ x.pc = x.instructionPc + 4 := by
  obtain ⟨b, memory, hb, -, rfl⟩ := executing?_eq_some hx
  obtain ⟨hpriv, hhalted⟩ := frame_of_fetching? hb
  have hbp : b.privileged = true := hpriv.trans hp
  have hfind : table.handler? inst.mnemonic = some Exec.waitForInterrupt := by
    rw [hname]
    exact DispatchTable.handler?_of_mem hbuild hsystem
      (r := ("wfi", Exec.waitForInterrupt)) (by simp [InstructionSet.system, Exec.systemHandlers])
  have hstep : h.step table =
      .ok () { b.executing memory with waiting := b.privileged, instret := b.instret + 1 } :=
    step_of_executing? hx hfind
  rw [hbp] at hstep
  exact ⟨stepped_of_ok hstep, hbp, hhalted, rfl⟩

/-- **No wake-up is lost.** A step of a hart that waits only counts the cycle while no trap is
queued. Otherwise it goes on at once, in the handler with the address saved or at that address. This
is the address behind the instruction that waits, however long the hart has waited. -/
theorem no_wakeup_lost (table : DispatchTable) :
    (∀ h : Hart, Waits h → WaitStep table h) ∧
      ∀ (sets : List InstructionSet) (h x k : Hart) (inst : Instruction),
        DispatchTable.build sets = .ok table → .system ∈ sets → h.privileged = true →
        h.executing? = some (inst, x) → inst.mnemonic = "wfi" →
        Stalls table (h.stepped table) k →
          k.pc = x.instructionPc + 4 ∧ (k.spent = none → Waits k) := by
  refine ⟨fun h => waitStep table, ?_⟩
  intro sets h x k inst hbuild hsystem hp hx hname hstalls
  obtain ⟨hstepped, hxp, hxhalted, hpc⟩ := stepped_of_wfi hbuild hsystem hp hx hname
  rw [hstepped] at hstalls
  obtain ⟨cycle, clock, traps, rfl⟩ := Stalls.frame
    (h := { x with waiting := true, instret := x.instret + 1 }) hxp hxhalted rfl hstalls
  exact ⟨hpc, fun hspent => ⟨hxp, hxhalted, hspent, rfl⟩⟩

/-- A hart about to wait, with interrupts disabled. -/
def aboutToWait : Hart :=
  { ofConfig privilegedConfig with
    memory := (AddressSpace.empty true 0x1000).insertSection
      (.ofWords ".text" 0 .code [0x10500073, 0x00000013]) }

/-- The instruction that waits, and the hart that executes it. -/
def firstWait : Instruction × Hart := aboutToWait.executing?.get (by decide +kernel)

/-- The hart that waits behind it, after a clock advance and with an interrupt. -/
def interruptedWait : Hart :=
  ((aboutToWait.stepped systemTable).elapse 7).raise .machineSoftwareInterrupt

/-- The interrupt is held back, but the hart goes on behind the instruction. -/
theorem no_wakeup_lost_interruptedWait :
    Stalls systemTable (aboutToWait.stepped systemTable) interruptedWait ∧
      interruptedWait.pc = 4 ∧ Waits interruptedWait ∧
      interruptedWait.pollTimer.traps.toList = [.machine .machineSoftwareInterrupt] ∧
      ¬ interruptedWait.Eligible (.machine .machineSoftwareInterrupt) ∧
      WaitStep systemTable interruptedWait := by
  have hx : aboutToWait.executing? = some (firstWait.1, firstWait.2) := by
    rw [firstWait, Prod.eta, Option.some_get]
  have hname : firstWait.1.mnemonic = "wfi" := by decide +kernel
  have hat : firstWait.2.instructionPc = 0 := by decide +kernel
  have hstalls : Stalls systemTable (aboutToWait.stepped systemTable) interruptedWait :=
    .raise _ (.elapse 7 .refl)
  have hsystem : InstructionSet.system ∈ systemSets := by simp [systemSets]
  obtain ⟨hpc, hwaits⟩ := (no_wakeup_lost systemTable).2 systemSets aboutToWait firstWait.2
    interruptedWait firstWait.1 build_systemSets hsystem rfl hx hname hstalls
  rw [hat] at hpc
  have hspent : interruptedWait.spent = none := by decide +kernel
  exact ⟨hstalls, hpc, hwaits hspent, by decide +kernel, by decide +kernel,
    (no_wakeup_lost systemTable).1 _ (hwaits hspent)⟩

end Riscv32.Hart
