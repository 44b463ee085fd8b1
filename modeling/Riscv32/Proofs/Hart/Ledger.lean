import Riscv32.Proofs.Hart.Confinement

/-!
# No trap is lost

Traps are raised by the timer, by instructions that fail, by the host between steps, and by
instructions that the host brings along. Whatever is raised on a privileged hart waits in the queue,
in the order in which it was raised, until it is delivered: what was raised is, as a multiset, what
was delivered and what still waits. A delivery takes one trap out of the queue, from the middle of
it if later ones are held back, and the others keep their order. It takes the latest of those that
are eligible: all while interrupts are enabled, and exceptions otherwise.

## Main definitions

* `Hart.OnlyRaises h h'` — the queue of `h'` is that of `h`, with traps added behind it.
* `Hart.raises table h` — the traps raised in the next step, in their order.
* `Hart.Eligible h e` — the trap may be delivered.
* `Hart.History table h₀ raised delivered h` — steps, clock advances and calls of the host lead from
  `h₀` to `h`, and these are the traps raised and delivered on the way.

## Main statements

* `TrapQueue.toList_of_pop?`, what a delivery does to the queue.
* `Hart.toList_stepped`, what a step adds to it after the delivery.
* `Hart.traps_conserved`, every run.
-/
namespace Riscv32

/-! ## The queue -/

namespace TrapQueue

variable {p : TrapEvent → Bool} {e : TrapEvent} {es rest : List TrapEvent} {q q' : TrapQueue}
  {enabled : Bool}

/-- The event that is taken out is the first one that satisfies the predicate. -/
theorem extract?_eq_some (h : extract? p es = some (e, rest)) :
    p e = true ∧ ∃ front back, es = front ++ e :: back ∧ rest = front ++ back ∧
      ∀ f ∈ front, p f = false := by
  induction es generalizing rest with
  | nil => cases h
  | cons f es ih =>
    rw [extract?] at h
    by_cases hf : p f = true
    · rw [if_pos hf] at h
      cases h
      exact ⟨hf, [], es, rfl, rfl, List.forall_mem_nil _⟩
    · rw [if_neg hf] at h
      obtain ⟨⟨found, kept⟩, hkept, hpair⟩ := Option.map_eq_some_iff.1 h
      cases hpair
      obtain ⟨hp, front, back, rfl, rfl, hfront⟩ := ih hkept
      refine ⟨hp, f :: front, back, rfl, rfl, ?_⟩
      rw [List.forall_mem_cons]
      exact ⟨by simpa using hf, hfront⟩

theorem extract?_eq_none (h : extract? p es = none) : ∀ f ∈ es, p f = false := by
  induction es with
  | nil => exact List.forall_mem_nil _
  | cons f es ih =>
    rw [extract?] at h
    by_cases hf : p f = true
    · rw [if_pos hf] at h
      cases h
    · rw [if_neg hf] at h
      rw [List.forall_mem_cons]
      exact ⟨by simpa using hf, ih (Option.map_eq_none_iff.1 h)⟩

/-- The latest event that may be delivered leaves the queue, and the others stay in their order. -/
theorem toList_of_pop? (h : q.pop? enabled = some (e, q')) :
    deliverable enabled e = true ∧ ∃ older newer, q.toList = older ++ e :: newer ∧
      q'.toList = older ++ newer ∧ ∀ f ∈ newer, deliverable enabled f = false := by
  obtain ⟨⟨found, kept⟩, hkept, hpair⟩ := Option.map_eq_some_iff.1 h
  cases hpair
  obtain ⟨he, front, back, hq, rfl, hfront⟩ := extract?_eq_some hkept
  refine ⟨he, back.reverse, front.reverse, ?_, ?_, fun f hf => hfront f (List.mem_reverse.1 hf)⟩
  · rw [toList, hq, List.reverse_append, List.reverse_cons, List.append_assoc]
    rfl
  · rw [toList, List.reverse_append]

/-- Nothing is taken out only if nothing may be delivered. -/
theorem deliverable_of_pop?_eq_none (h : q.pop? enabled = none) :
    ∀ f ∈ q.toList, deliverable enabled f = false := fun f hf =>
  extract?_eq_none (Option.map_eq_none_iff.1 h) f (List.mem_reverse.1 hf)

end TrapQueue

/-! ## Instructions -/

namespace Hart

variable {h h₁ h₂ h₃ : Hart}

/-- The queue of `h'` is that of `h`, with traps added behind it. -/
structure OnlyRaises (h h' : Hart) : Prop where
  privileged : h'.privileged = h.privileged
  traps : h.traps.toList <+: h'.traps.toList

theorem OnlyRaises.of_setting (hsetting : h₁.setting = h₂.setting) : OnlyRaises h₁ h₂ := by
  have hprivileged := congrArg Hart.privileged hsetting
  have htraps := congrArg Hart.traps hsetting
  change h₁.traps = h₂.traps at htraps
  exact ⟨hprivileged.symm, htraps ▸ List.prefix_rfl⟩

end Hart

/-- An instruction set whose instructions may raise traps but do not take any out of the queue. -/
def InstructionSet.OnlyRaises (s : InstructionSet) : Prop :=
  ∀ r ∈ s.handlers, ∀ inst, Exec.Keeps Hart.OnlyRaises (r.2 inst)

/-- Whatever a table finds takes no trap out of the queue if its sets do not. -/
theorem DispatchTable.onlyRaises_of_handler? {sets : List InstructionSet} {t : DispatchTable}
    {mnemonic : String} {handler : Handler}
    (hsets : ∀ s ∈ sets, s ∈ InstructionSet.standard ∨ s.OnlyRaises) (ht : build sets = .ok t)
    (h : t.handler? mnemonic = some handler) (inst : Instruction) :
    Exec.Keeps Hart.OnlyRaises (handler inst) := by
  obtain ⟨s, hs, r, hr, -, rfl⟩ := exists_set_of_handler? ht h
  rcases hsets s hs with hstandard | hraises
  · exact fun h => .of_setting ((Exec.acts_of_mem_standard hstandard hr inst).setting h)
  · exact hraises r hr inst

/-! ## What is raised in a step -/

namespace Hart

variable {table : DispatchTable} {sets : List InstructionSet} {h h₀ b d : Hart} {e : TrapEvent}
  {raised delivered : List TrapEvent}

/-- The trap that the timer raises in the next step. -/
def polled? (h : Hart) : Option TrapEvent :=
  if h.halted || h.spent.isSome || !h.privileged then none
  else if h.timer.fires h.clock.now then some (.machine .machineTimerInterrupt)
  else none

/-- The traps that the instruction raises itself. Only those that the host brings along do. -/
def handlerRaises (table : DispatchTable) (b : Hart) : List TrapEvent :=
  match AddressSpace.fetch b.pc b.memory with
  | .error _ _ => []
  | .ok inst memory =>
    match table.handler? inst.mnemonic with
    | none => []
    | some handler =>
      (stateAfter (handler inst) { b with
        cycle := b.cycle + 1, instructionPc := b.pc, memory, pc := b.pc + 4 }).traps.toList.drop
          b.traps.toList.length

/-- The traps that an instruction raises: those that it raises itself, and that of its failure. -/
def instructionRaises (table : DispatchTable) (b : Hart) : List TrapEvent :=
  b.handlerRaises table ++ ((b.exception? table).map TrapEvent.machine).toList

/-- The traps raised in the next step, in their order. -/
def raises (table : DispatchTable) (h : Hart) : List TrapEvent :=
  h.polled?.toList ++ h.fetching?.elim [] (instructionRaises table)

/-- The traps that wait at the next boundary, in the order in which they were raised. -/
def awaiting (h : Hart) : List TrapEvent := h.traps.toList ++ h.polled?.toList

/-- The trap may be delivered: interrupts wait until they are enabled. -/
def Eligible (h : Hart) (e : TrapEvent) : Prop :=
  e.trap.isInterrupt = true → h.csrs.mstatusField .mie ≠ 0

instance (h : Hart) (e : TrapEvent) : Decidable (h.Eligible e) :=
  inferInstanceAs (Decidable (_ → _))

theorem deliverable_iff (h : Hart) (e : TrapEvent) :
    TrapQueue.deliverable (h.csrs.mstatusField .mie != 0) e = true ↔ h.Eligible e := by
  rw [TrapQueue.deliverable, Eligible]
  cases e.trap.isInterrupt <;> simp

/-- A failure adds its trap to the queue of a privileged hart, if it has one. -/
theorem toList_fail (hp : h.privileged = true) (inst : Option Instruction) (e : ExecError) :
    (stateAfter (fun h => h.fail inst e) h).traps.toList = h.traps.toList ++
      ((e.trap? ((inst.bind (·.encoding?)).getD 0)).map TrapEvent.machine).toList := by
  cases ht : e.trap? ((inst.bind (·.encoding?)).getD 0) with
  | some t =>
    simp only [stateAfter, fail_of_trap? hp ht]
    exact TrapQueue.toList_push _ _
  | none =>
    rw [Option.map_none, Option.toList_none, List.append_nil]
    cases e with
    | unimplemented mnemonic => rfl
    | debuggerRequested => rfl
    | _ =>
      simp only [stateAfter, fail, hp, ht]
      rfl

section Table

variable (hsets : ∀ s ∈ sets, s ∈ InstructionSet.standard ∨ s.OnlyRaises)
  (hbuild : DispatchTable.build sets = .ok table)

include hsets hbuild

/-- The fetch and the instruction add to the queue what they raise. -/
theorem toList_fetchExecute (hp : b.privileged = true) :
    (stateAfter (fun b => b.fetchExecute table) b).traps.toList
      = b.traps.toList ++ b.instructionRaises table := by
  simp only [stateAfter, fetchExecute, instructionRaises, handlerRaises, exception?]
  cases hfetch : AddressSpace.fetch b.pc b.memory with
  | error e memory =>
    have hfail := toList_fail (h := { b with
      cycle := b.cycle + 1, instructionPc := b.pc, memory }) hp none (.memory e)
    simp only [stateAfter] at hfail
    exact hfail
  | ok inst memory =>
    cases hfind : table.handler? inst.mnemonic with
    | none =>
      simp only [execute, hfind]
      exact (List.append_nil _).symm
    | some handler =>
      obtain ⟨hkept, hadded⟩ := DispatchTable.onlyRaises_of_handler? hsets hbuild hfind inst
        { b with cycle := b.cycle + 1, instructionPc := b.pc, memory, pc := b.pc + 4 }
      rw [List.prefix_iff_eq_append] at hadded
      simp only [execute, hfind]
      simp only [stateAfter] at hkept hadded ⊢
      cases hres : handler inst { b with
          cycle := b.cycle + 1, instructionPc := b.pc, memory, pc := b.pc + 4 } with
      | ok a h₁ =>
        rw [hres] at hadded
        simp only [Option.map_none, Option.toList_none, List.append_nil]
        exact hadded.symm
      | error e h₁ =>
        rw [hres] at hkept hadded
        have hfail := toList_fail (hkept.trans hp) (some inst) e
        simp only [stateAfter] at hfail hadded ⊢
        rw [hfail, ← List.append_assoc, hadded]
        rfl

/-- After its boundary a step only adds to the queue. -/
theorem toList_stepped (hgo : ¬ (h.halted || h.spent.isSome) = true) (hp : h.privileged = true) :
    (h.stepped table).traps.toList
      = h.atBoundary.traps.toList ++ h.fetching?.elim [] (instructionRaises table) := by
  by_cases hwait : (h.atBoundary.waiting && !h.atBoundary.traps.hasInterrupt) = true
  · rw [stepped_of_waits table hgo hwait, fetching?, if_neg hgo, if_pos hwait]
    exact (List.append_nil _).symm
  · have hb : h.fetching? = some { h.atBoundary with waiting := false } := by
      rw [fetching?, if_neg hgo, if_neg hwait]
    rw [stepped_of_fetching? hb, hb]
    exact toList_fetchExecute hsets hbuild ((frame_of_fetching? hb).1.trans hp)

end Table

/-- The instructions of the standard sets raise nothing themselves. -/
theorem handlerRaises_eq_nil (hsets : ∀ s ∈ sets, s ∈ InstructionSet.standard)
    (hbuild : DispatchTable.build sets = .ok table) (b : Hart) : b.handlerRaises table = [] := by
  rw [handlerRaises]
  split
  case h_1 => rfl
  case h_2 inst memory _ =>
    split
    case h_1 => rfl
    case h_2 handler hfind =>
      have hkept := (DispatchTable.acts_of_handler? hsets hbuild hfind inst).setting { b with
        cycle := b.cycle + 1, instructionPc := b.pc, memory, pc := b.pc + 4 }
      have htraps := congrArg Hart.traps hkept
      change b.traps = (stateAfter (handler inst) _).traps at htraps
      rw [← htraps]
      exact List.drop_length

/-- What such an instruction adds to the queue is the exception that it fails with. -/
theorem exception?_of_mem_raises (hsets : ∀ s ∈ sets, s ∈ InstructionSet.standard)
    (hbuild : DispatchTable.build sets = .ok table)
    (he : e ∈ h.fetching?.elim [] (instructionRaises table)) :
    ∃ b t, h.fetching? = some b ∧ b.exception? table = some t ∧ e = .machine t := by
  cases hb : h.fetching? with
  | none =>
    rw [hb] at he
    cases he
  | some b =>
    rw [hb, Option.elim_some, instructionRaises, handlerRaises_eq_nil hsets hbuild,
      List.nil_append, Option.mem_toList, Option.map_eq_some_iff] at he
    obtain ⟨t, ht, rfl⟩ := he
    exact ⟨b, t, rfl, ht, rfl⟩

/-! ## What is delivered at a boundary -/

/-- The latest eligible trap is delivered, and the others stay in their order. -/
theorem deliverTrap_eq_some (hd : h.deliverTrap = (some e, d)) :
    h.Eligible e ∧ ∃ older newer, h.traps.toList = older ++ e :: newer ∧
      d.traps.toList = older ++ newer ∧ ∀ f ∈ newer, ¬ h.Eligible f := by
  unfold deliverTrap at hd
  split at hd
  case h_1 => cases hd
  case h_2 e' traps hpop =>
    cases hd
    obtain ⟨he, older, newer, hbefore, hafter, hnewer⟩ := TrapQueue.toList_of_pop? hpop
    refine ⟨(deliverable_iff h _).1 he, older, newer, hbefore, hafter, fun f hf hf' => ?_⟩
    have hheld := hnewer f hf
    rw [(deliverable_iff h f).2 hf'] at hheld
    cases hheld

/-- Nothing is delivered only if nothing is eligible. -/
theorem not_eligible_of_deliverTrap (hd : h.deliverTrap.1 = none) :
    ∀ f ∈ h.traps.toList, ¬ h.Eligible f := by
  unfold deliverTrap at hd
  split at hd
  case h_1 hpop =>
    intro f hf hf'
    have hheld := TrapQueue.deliverable_of_pop?_eq_none hpop f hf
    rw [(deliverable_iff h f).2 hf'] at hheld
    cases hheld
  case h_2 => cases hd

theorem toList_pollTimer (hgo : ¬ (h.halted || h.spent.isSome) = true)
    (hp : h.privileged = true) : h.pollTimer.traps.toList = h.awaiting := by
  rw [awaiting, polled?, hp, Bool.not_true, Bool.or_false, if_neg hgo, traps_pollTimer]
  split
  · exact TrapQueue.toList_push _ _
  · exact (List.append_nil _).symm

/-- What a step delivers is the latest of the traps that wait at its boundary and are eligible
there, and it alone leaves the queue. -/
theorem awaiting_of_delivered? (hdelivered : h.delivered? = some e) :
    h.Eligible e ∧ ∃ older newer, h.awaiting = older ++ e :: newer ∧
      h.atBoundary.traps.toList = older ++ newer ∧ ∀ f ∈ newer, ¬ h.Eligible f := by
  have hruns : ¬ (h.halted || h.spent.isSome || !h.privileged) = true := by
    intro hnot
    rw [delivered?, if_pos hnot] at hdelivered
    cases hdelivered
  simp only [Bool.or_eq_true, not_or, Bool.not_eq_true', Bool.not_eq_false] at hruns
  have hgo : ¬ (h.halted || h.spent.isSome) = true := by simpa using hruns.1
  have hp : h.privileged = true := hruns.2
  rw [delivered?_eq hgo hp] at hdelivered
  have hd : h.pollTimer.deliverTrap = (some e, h.atBoundary) := by
    rw [atBoundary, if_pos hp, ← hdelivered]
  obtain ⟨he, older, newer, hbefore, hafter, hnewer⟩ := deliverTrap_eq_some hd
  rw [toList_pollTimer hgo hp] at hbefore
  simp only [Eligible, mstatusField_pollTimer] at he hnewer
  exact ⟨he, older, newer, hbefore, hafter, hnewer⟩

/-- Without a delivery all traps that wait stay in the queue, since none of them is eligible. -/
theorem awaiting_of_delivered?_eq_none (hgo : ¬ (h.halted || h.spent.isSome) = true)
    (hp : h.privileged = true) (hnone : h.delivered? = none) :
    h.atBoundary.traps.toList = h.awaiting ∧ ∀ f ∈ h.awaiting, ¬ h.Eligible f := by
  constructor
  · rw [atBoundary_of_delivered?_eq_none hgo hnone, if_pos hp, toList_pollTimer hgo hp]
  · rw [delivered?_eq hgo hp] at hnone
    have hheld := not_eligible_of_deliverTrap hnone
    simp only [Eligible, mstatusField_pollTimer, toList_pollTimer hgo hp] at hheld
    exact hheld

/-- The traps that wait at a boundary are the one delivered there and those that stay. -/
theorem awaiting_perm (hgo : ¬ (h.halted || h.spent.isSome) = true) (hp : h.privileged = true) :
    h.awaiting.Perm (h.delivered?.toList ++ h.atBoundary.traps.toList) ∧
      h.atBoundary.traps.toList.Sublist h.awaiting := by
  cases hdelivered : h.delivered? with
  | none =>
    rw [(awaiting_of_delivered?_eq_none hgo hp hdelivered).1]
    exact ⟨.refl _, .refl _⟩
  | some e =>
    obtain ⟨-, older, newer, hbefore, hafter, -⟩ := awaiting_of_delivered? hdelivered
    rw [hbefore, hafter]
    exact ⟨List.perm_middle, (List.sublist_cons_self e newer).append_left older⟩

/-! ## Runs -/

/-- Steps, clock advances and calls of the host lead from `h₀` to `h`. In this order traps were
raised and delivered on the way. -/
inductive History (table : DispatchTable) (h₀ : Hart) :
    List TrapEvent → List TrapEvent → Hart → Prop
  | start : History table h₀ [] [] h₀
  | step {raised delivered : List TrapEvent} {h : Hart} : History table h₀ raised delivered h →
    History table h₀ (raised ++ h.raises table) (delivered ++ h.delivered?.toList)
      (h.stepped table)
  | elapse {raised delivered : List TrapEvent} {h : Hart} (ticks : Counter) :
    History table h₀ raised delivered h → History table h₀ raised delivered (h.elapse ticks)
  | raise {raised delivered : List TrapEvent} {h : Hart} (t : Trap) :
    History table h₀ raised delivered h →
    History table h₀ (raised ++ [.machine t]) delivered (h.raise t)

/-- What was raised is what was delivered and what waits, in the order in which it was raised. -/
structure Balanced (raised delivered : List TrapEvent) (h : Hart) : Prop where
  privileged : h.privileged = true
  conserved : raised.Perm (delivered ++ h.traps.toList)
  ordered : h.traps.toList.Sublist raised

section Table

variable (hsets : ∀ s ∈ sets, s ∈ InstructionSet.standard ∨ s.OnlyRaises)
  (hbuild : DispatchTable.build sets = .ok table)

include hsets hbuild

theorem Balanced.stepped (hh : Balanced raised delivered h) :
    Balanced (raised ++ h.raises table) (delivered ++ h.delivered?.toList) (h.stepped table) := by
  by_cases hgo : (h.halted || h.spent.isSome) = true
  · have hnothing : h.raises table = [] ∧ h.delivered? = none := by
      rw [raises, fetching?, polled?, delivered?, hgo]
      exact ⟨rfl, rfl⟩
    rw [stepped_of_done hgo, hnothing.1, hnothing.2, Option.toList_none, List.append_nil,
      List.append_nil]
    exact hh
  · have hp := hh.privileged
    obtain ⟨hperm, hsub⟩ := awaiting_perm hgo hp
    have hafter := toList_stepped hsets hbuild hgo hp
    have hraises : raised ++ h.raises table = (raised ++ h.polled?.toList) ++
        h.fetching?.elim [] (instructionRaises table) := (List.append_assoc _ _ _).symm
    have hprivileged : Stepwise table fun h h' => h'.privileged = h.privileged :=
      stepwise_privileged fun _ _ hfind inst h =>
        (DispatchTable.onlyRaises_of_handler? hsets hbuild hfind inst h).privileged
    refine ⟨(hprivileged.stepped h).trans hp, ?_, ?_⟩
    · rw [hraises, hafter]
      have hboundary : (raised ++ h.polled?.toList).Perm
          (delivered ++ h.delivered?.toList ++ h.atBoundary.traps.toList) :=
        calc (raised ++ h.polled?.toList).Perm
              (delivered ++ h.traps.toList ++ h.polled?.toList) := hh.conserved.append_right _
          _ = delivered ++ h.awaiting := List.append_assoc _ _ _
          List.Perm _ (delivered ++ (h.delivered?.toList ++ h.atBoundary.traps.toList)) :=
            hperm.append_left delivered
          _ = _ := (List.append_assoc _ _ _).symm
      rw [← List.append_assoc]
      exact hboundary.append_right _
    · rw [hraises, hafter]
      exact (hsub.trans (hh.ordered.append_right _)).append_right _

theorem History.balanced (hp : h₀.privileged = true) (hempty : h₀.traps = .empty)
    (hhistory : History table h₀ raised delivered h) : Balanced raised delivered h := by
  induction hhistory with
  | start =>
    have hnil : h₀.traps.toList = [] := by rw [hempty, TrapQueue.toList_empty]
    refine ⟨hp, ?_, ?_⟩
    · rw [hnil]
      exact .refl _
    · rw [hnil]
  | step _ ih => exact ih.stepped hsets hbuild
  | elapse ticks _ ih =>
    obtain ⟨clock, hclock⟩ := elapse_eq ticks _
    rw [hclock]
    exact ⟨ih.privileged, ih.conserved, ih.ordered⟩
  | raise t _ ih =>
    refine ⟨ih.privileged, ?_, ?_⟩
    · rw [Hart.raise, TrapQueue.toList_push, ← List.append_assoc]
      exact ih.conserved.append_right _
    · rw [Hart.raise, TrapQueue.toList_push]
      exact ih.ordered.append_right _

/-- On every run of a privileged hart, from an empty queue, what was raised is what was delivered
and what waits, and what waits is in the order in which it was raised. If the next step makes a
delivery, this is an exception, or an interrupt while they are enabled; of the traps that wait at
the boundary it is the last one raised that is eligible, and all others stay. If the step makes
none, though it gets to its boundary, no trap is eligible there. Every delivery of a run is the
next one of a shorter run. -/
theorem traps_conserved (hp : h₀.privileged = true) (hempty : h₀.traps = .empty)
    (hhistory : History table h₀ raised delivered h) :
    raised.Perm (delivered ++ h.traps.toList) ∧ h.traps.toList.Sublist raised ∧
      h.awaiting.Sublist (raised ++ h.polled?.toList) ∧
      (∀ e, h.delivered? = some e →
        (e.trap.isInterrupt = true → h.csrs.mstatusField .mie ≠ 0) ∧
        ∃ older newer, h.awaiting = older ++ e :: newer ∧
          h.atBoundary.traps.toList = older ++ newer ∧ ∀ f ∈ newer, ¬ h.Eligible f) ∧
      (¬ (h.halted || h.spent.isSome) = true → h.delivered? = none →
        ∀ f ∈ h.awaiting, ¬ h.Eligible f) := by
  have hbalanced := hhistory.balanced hsets hbuild hp hempty
  refine ⟨hbalanced.conserved, hbalanced.ordered, hbalanced.ordered.append_right _,
    fun e he => awaiting_of_delivered? he, fun hgo hnone => ?_⟩
  exact (awaiting_of_delivered?_eq_none hgo hbalanced.privileged hnone).2

end Table

/-! ## A run with four traps -/

/-- A hart at the start of the code that arms the timer and enables interrupts. -/
def unarmed : Hart := { ofConfig privilegedConfig with memory := timedCall }

/-- The hart once the timer is due. The host raised an interrupt before they were enabled. -/
def timerDue : Hart :=
  ((((unarmed.raise .machineSoftwareInterrupt).stepped systemTable).stepped systemTable).stepped
    systemTable).elapse 6

/-- The hart in the handler, which has armed the timer again, and the host raises an exception. -/
def breakpointRaised : Hart := (timerDue.stepped systemTable).raise (.breakpoint 0)

theorem history_breakpointRaised :
    History systemTable unarmed
      [.machine .machineSoftwareInterrupt, .machine .machineTimerInterrupt,
        .machine (.breakpoint 0)]
      [.machine .machineTimerInterrupt] breakpointRaised := by
  have hhistory : History systemTable unarmed _ _ breakpointRaised :=
    .raise (.breakpoint 0) (.step (.elapse 6 (.step (.step (.step
      (.raise .machineSoftwareInterrupt .start))))))
  convert hhistory using 1
  · decide +kernel
  · decide +kernel

/-- The timer interrupt is delivered before the one that the host raised earlier. In its handler
interrupts are held back, so the exception is delivered from the middle of the queue: the one that
the timer raises meanwhile is later. The two that are left wait in the order of their raising. -/
theorem traps_conserved_of_timedCall :
    timerDue.delivered? = some (.machine .machineTimerInterrupt) ∧
      breakpointRaised.delivered? = some (.machine (.breakpoint 0)) ∧
      (∃ older newer, breakpointRaised.awaiting = older ++ .machine (.breakpoint 0) :: newer ∧
        breakpointRaised.atBoundary.traps.toList = older ++ newer ∧
        ∀ f ∈ newer, ¬ breakpointRaised.Eligible f) ∧
      breakpointRaised.awaiting = [.machine .machineSoftwareInterrupt, .machine (.breakpoint 0),
        .machine .machineTimerInterrupt] ∧
      List.Perm [.machine .machineSoftwareInterrupt, .machine .machineTimerInterrupt,
          .machine (.breakpoint 0), .machine .machineTimerInterrupt]
        ([.machine .machineTimerInterrupt, .machine (.breakpoint 0)]
          ++ (breakpointRaised.stepped systemTable).traps.toList) ∧
      (breakpointRaised.stepped systemTable).traps.toList = [.machine .machineSoftwareInterrupt,
        .machine .machineTimerInterrupt] := by
  have hsets : ∀ s ∈ systemSets, s ∈ InstructionSet.standard ∨ s.OnlyRaises :=
    fun s hs => .inl (systemSets_standard s hs)
  have hdelivered : breakpointRaised.delivered? = some (.machine (.breakpoint 0)) := by
    decide +kernel
  have hraises : breakpointRaised.raises systemTable = [.machine .machineTimerInterrupt] := by
    decide +kernel
  obtain ⟨-, -, -, hturn, -⟩ :=
    traps_conserved hsets build_systemSets rfl rfl history_breakpointRaised
  have hlast := history_breakpointRaised.step
  rw [hraises, hdelivered] at hlast
  obtain ⟨hperm, -⟩ := traps_conserved hsets build_systemSets rfl rfl hlast
  exact ⟨by decide +kernel, hdelivered, (hturn _ hdelivered).2, by decide +kernel, hperm,
    by decide +kernel⟩

end Hart
end Riscv32
