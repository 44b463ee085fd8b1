import Riscv32.Hart.Step
import Riscv32.Proofs.Hart.Effect

/-!
# The parts of a step

A step is made of few parts: the boundary, at which the timer is polled and a trap is delivered, the
fetch, the instruction, and the consequence of a failure. What each of them may change is said once
here. A relation that each of them respects holds between a hart and whatever any number of steps
and clock advances lead to.

## Main definitions

* `Hart.stepped table h`, `Hart.elapse h ticks` — the hart after a step and after a clock advance.
* `Hart.fetching? h` — the hart that fetches in the next step, if the step gets that far.
* `Hart.Reaches table h h'` — steps and clock advances lead from `h` to `h'`.
* `Hart.Stepwise table R` — every part of a step respects the relation `R`.

## Main statements

* `Hart.stepped_of_done`, `Hart.stepped_of_waits`, `Hart.stepped_of_fetching?`, the ways of a step.
* `Hart.Stepwise.stepped`, what the parts respect is respected by a step.
* `Hart.Stepwise.reaches`, and by any number of them.
-/
namespace Riscv32.Hart

variable {table : DispatchTable} {R : Hart → Hart → Prop} {h h' b : Hart}

/-- The hart that a step leaves, whether it fails or not. -/
def stepped (table : DispatchTable) (h : Hart) : Hart :=
  stateAfter (ε := HartError) (step table) h

/-- The hart after the host moved the clock. -/
def elapse (h : Hart) (ticks : Counter) : Hart := { h with clock := h.clock.advance ticks }

/-- The hart that fetches in a step, if the step gets that far. -/
def fetching? (h : Hart) : Option Hart :=
  if h.halted || h.spent.isSome then none
  else if h.atBoundary.waiting && !h.atBoundary.traps.hasInterrupt then none
  else some { h.atBoundary with waiting := false }

/-- What steps and clock advances lead to. -/
inductive Reaches (table : DispatchTable) (h : Hart) : Hart → Prop
  | refl : Reaches table h h
  | step {k : Hart} : Reaches table h k → Reaches table h (k.stepped table)
  | elapse {k : Hart} (ticks : Counter) : Reaches table h k → Reaches table h (k.elapse ticks)

/-! ## What the parts change -/

/-- A poll changes the trap queue, the timer and the pending bit at most. -/
theorem pollTimer_eq (h : Hart) : ∃ csrs traps timer,
    h.pollTimer = { h with csrs, traps, timer } ∧
      csrs.raw Csr.mstatus = h.csrs.raw Csr.mstatus := by
  rw [pollTimer]
  split
  · exact ⟨_, _, _, rfl, by rw [Csr.Store.raw_setRaw, if_neg (by decide)]⟩
  · exact ⟨_, _, _, rfl, rfl⟩

theorem deliverTrap_eq (h : Hart) :
    h.deliverTrap = (none, h) ∨
      ∃ e traps, h.deliverTrap = (some e, ({ h with traps } : Hart).enterTrap e) := by
  rw [deliverTrap]
  split
  · exact .inl rfl
  · exact .inr ⟨_, _, rfl⟩

/-- The start of a step changes nothing but what the timer and a trap concern. -/
theorem atBoundary_eq (h : Hart) : ∃ csrs traps timer privilege reservation waiting pc,
    h.atBoundary = { h with csrs, traps, timer, privilege, reservation, waiting, pc } := by
  rw [atBoundary]
  split
  · obtain ⟨csrs, traps, timer, hpoll, -⟩ := pollTimer_eq h
    rw [hpoll]
    rcases deliverTrap_eq { h with csrs, traps, timer } with hd | ⟨e, traps', hd⟩
    · rw [hd]
      exact ⟨_, _, _, _, _, _, _, rfl⟩
    · rw [hd]
      exact ⟨_, _, _, _, _, _, _, rfl⟩
  · exact ⟨_, _, _, _, _, _, _, rfl⟩

/-- The start of a step leaves what a trap does not concern. -/
theorem atBoundary_frame (h : Hart) :
    h.atBoundary.privileged = h.privileged ∧ h.atBoundary.halted = h.halted ∧
      h.atBoundary.memory = h.memory := by
  obtain ⟨csrs, traps, timer, privilege, reservation, waiting, pc, hat⟩ := atBoundary_eq h
  rw [hat]
  exact ⟨rfl, rfl, rfl⟩

/-- A step that gets as far as a fetch passed every earlier return. -/
theorem fetching?_eq_some (hb : h.fetching? = some b) :
    h.halted = false ∧ h.spent = none ∧
      ¬(h.atBoundary.waiting && !h.atBoundary.traps.hasInterrupt) = true ∧
      b = { h.atBoundary with waiting := false } := by
  rw [fetching?] at hb
  split at hb
  case isTrue => cases hb
  case isFalse hgo =>
    split at hb
    case isTrue => cases hb
    case isFalse hwait =>
      cases hb
      simp only [Bool.or_eq_true, not_or, Bool.not_eq_true, Option.isSome_eq_false_iff,
        Option.isNone_iff_eq_none] at hgo
      exact ⟨hgo.1, hgo.2, hwait, rfl⟩

/-- The hart that fetches is as privileged as before the step, and not halted. -/
theorem frame_of_fetching? (hb : h.fetching? = some b) :
    b.privileged = h.privileged ∧ b.halted = false := by
  obtain ⟨hpriv, hhalted, -⟩ := atBoundary_frame h
  obtain ⟨hgo, -, -, rfl⟩ := fetching?_eq_some hb
  exact ⟨hpriv, hhalted.trans hgo⟩

/-- A failure queues a trap and goes back, or leaves the hart alone, or halts it. -/
theorem fail_eq (inst : Option Instruction) (e : ExecError) (h : Hart) :
    (∃ t, h.fail inst e = .ok () (({ h with pc := h.instructionPc } : Hart).raise t)) ∨
      (∃ err, h.fail inst e = .error err h) ∨ ∃ err, h.fail inst e = .error err (h.halt 1) := by
  cases e with
  | unimplemented mnemonic => exact .inr (.inl ⟨_, rfl⟩)
  | debuggerRequested => exact .inr (.inl ⟨_, rfl⟩)
  | _ =>
    simp only [fail]
    split
    · exact .inl ⟨_, rfl⟩
    · exact .inr (.inr ⟨_, rfl⟩)

theorem elapse_eq (ticks : Counter) (h : Hart) : ∃ clock, h.elapse ticks = { h with clock } :=
  ⟨_, rfl⟩

/-! ## The ways of a step -/

theorem step_of_fetching? (hb : h.fetching? = some b) : h.step table = b.fetchExecute table := by
  obtain ⟨hhalted, hspent, hwait, rfl⟩ := fetching?_eq_some hb
  simp only [step, hhalted, hspent, Bool.false_eq_true, if_false, if_neg hwait]

theorem stepped_of_fetching? (hb : h.fetching? = some b) :
    h.stepped table = stateAfter (fun b => b.fetchExecute table) b := by
  simp only [stepped, stateAfter, step_of_fetching? hb]

/-- A step that does not get as far as a fetch. -/
theorem step_of_fetching?_eq_none (table : DispatchTable) (hb : h.fetching? = none) :
    h.step table = .ok () h ∨
      (∃ limit, h.spent = some limit ∧ h.step table = .error (.cycleLimit limit h.pc) h) ∨
      h.step table = .ok () { h.atBoundary with cycle := h.atBoundary.cycle + 1 } := by
  unfold step
  by_cases hhalted : h.halted
  · exact .inl (if_pos hhalted)
  rw [if_neg hhalted]
  cases hspent : h.spent with
  | some limit => exact .inr (.inl ⟨limit, rfl, rfl⟩)
  | none =>
    refine .inr (.inr ?_)
    rw [fetching?, hspent] at hb
    simp only [hhalted, Option.isSome_none, Bool.or_self, Bool.false_eq_true, if_false] at hb
    split at hb
    case isTrue hwait => exact if_pos hwait
    case isFalse => cases hb

/-- A hart that is halted or has used up its cycles stays as it is. -/
theorem stepped_of_done (hdone : (h.halted || h.spent.isSome) = true) : h.stepped table = h := by
  unfold stepped stateAfter Hart.step
  by_cases hhalted : h.halted
  · rw [if_pos hhalted]
  · rw [if_neg hhalted]
    cases hspent : h.spent with
    | some limit => rfl
    | none =>
      rw [hspent] at hdone
      simp [hhalted] at hdone

/-- A hart that waits for an interrupt only counts the cycle. -/
theorem stepped_of_waits (table : DispatchTable) (hgo : ¬ (h.halted || h.spent.isSome) = true)
    (hwait : (h.atBoundary.waiting && !h.atBoundary.traps.hasInterrupt) = true) :
    h.stepped table = { h.atBoundary with cycle := h.atBoundary.cycle + 1 } := by
  simp only [Bool.or_eq_true, not_or, Bool.not_eq_true, Option.isSome_eq_false_iff,
    Option.isNone_iff_eq_none] at hgo
  simp only [stepped, stateAfter, step, hgo, Bool.false_eq_true, if_false, if_pos hwait]

/-! ## Relations along steps -/

/-- Every part of a step respects the relation. -/
structure Stepwise (table : DispatchTable) (R : Hart → Hart → Prop) : Prop where
  refl : ∀ h, R h h
  trans : ∀ {h₁ h₂ h₃}, R h₁ h₂ → R h₂ h₃ → R h₁ h₃
  /-- The counters, the clock, where the hart is and whether it goes on. -/
  frame : ∀ (h : Hart) (pc instructionPc : Word) (cycle instret : Counter) (clock : Clock)
    (waiting halted : Bool) (exitCode : Option Word),
    R h { h with pc, instructionPc, cycle, instret, clock, waiting, halted, exitCode }
  boundary : ∀ h, R h h.atBoundary
  fetch : ∀ h addr, R h { h with memory := stateAfter (AddressSpace.fetch addr) h.memory }
  handler : ∀ mnemonic handler, table.handler? mnemonic = some handler →
    ∀ inst, Exec.Keeps R (handler inst)
  raise : ∀ h t, R h (h.raise t)

theorem Stepwise.fail (hR : Stepwise table R) (inst : Option Instruction) (e : ExecError)
    (h : Hart) : R h (stateAfter (fun h => h.fail inst e) h) := by
  simp only [stateAfter]
  rcases fail_eq inst e h with ⟨t, hfail⟩ | ⟨err, hfail⟩ | ⟨err, hfail⟩
  · rw [hfail]
    exact hR.trans (hR.frame h h.instructionPc h.instructionPc h.cycle h.instret h.clock h.waiting
      h.halted h.exitCode) (hR.raise _ t)
  · rw [hfail]
    exact hR.refl h
  · rw [hfail]
    exact hR.frame h h.pc h.instructionPc h.cycle h.instret h.clock h.waiting true (some 1)

theorem Stepwise.execute (hR : Stepwise table R) (inst : Instruction) (h : Hart) :
    R h (stateAfter (fun h => h.execute table inst) h) := by
  cases hfind : table.handler? inst.mnemonic with
  | none =>
    simp only [stateAfter, Hart.execute, hfind]
    exact hR.frame h h.pc h.instructionPc h.cycle h.instret h.clock h.waiting true (some 1)
  | some handler =>
    have hkept := hR.handler _ handler hfind inst h
    cases hres : handler inst h with
    | ok a h₁ =>
      simp only [stateAfter, hres] at hkept
      simp only [stateAfter, Hart.execute, hfind, hres]
      exact hR.trans hkept (hR.frame h₁ h₁.pc h₁.instructionPc h₁.cycle _ h₁.clock h₁.waiting
        h₁.halted h₁.exitCode)
    | error e h₁ =>
      simp only [stateAfter, hres] at hkept
      simp only [stateAfter, Hart.execute, hfind, hres]
      exact hR.trans hkept (hR.fail (some inst) e h₁)

theorem Stepwise.fetchExecute (hR : Stepwise table R) (h : Hart) :
    R h (stateAfter (fun h => h.fetchExecute table) h) := by
  have hstart : ∀ pc, R h { h with
      pc, cycle := h.cycle + 1, instructionPc := h.pc,
      memory := stateAfter (AddressSpace.fetch h.pc) h.memory } := fun pc =>
    hR.trans (hR.fetch h h.pc) (hR.frame { h with memory := _ } pc h.pc (h.cycle + 1) h.instret
      h.clock h.waiting h.halted h.exitCode)
  simp only [stateAfter, Hart.fetchExecute] at hstart ⊢
  cases hfetch : AddressSpace.fetch h.pc h.memory with
  | error e memory =>
    rw [hfetch] at hstart
    exact hR.trans (hstart h.pc) (hR.fail none (.memory e) _)
  | ok inst memory =>
    rw [hfetch] at hstart
    exact hR.trans (hstart (h.pc + 4)) (hR.execute inst _)

/-- A step respects what its parts respect. -/
theorem Stepwise.stepped (hR : Stepwise table R) (h : Hart) : R h (h.stepped table) := by
  cases hb : h.fetching? with
  | none =>
    rcases step_of_fetching?_eq_none table hb with hres | ⟨limit, -, hres⟩ | hres
    · simp only [Hart.stepped, stateAfter, hres]
      exact hR.refl h
    · simp only [Hart.stepped, stateAfter, hres]
      exact hR.refl h
    · simp only [Hart.stepped, stateAfter, hres]
      exact hR.trans (hR.boundary h) (hR.frame h.atBoundary _ _ _ _ _ _ _ _)
  | some b =>
    have hrest := hR.fetchExecute b
    rw [stepped_of_fetching? hb]
    obtain ⟨-, -, -, rfl⟩ := fetching?_eq_some hb
    exact hR.trans (hR.trans (hR.boundary h) (hR.frame h.atBoundary _ _ _ _ _ false _ _)) hrest

/-- So do any number of steps and clock advances. -/
theorem Stepwise.reaches (hR : Stepwise table R) (hreaches : Reaches table h h') : R h h' := by
  induction hreaches with
  | refl => exact hR.refl h
  | step _ ih => exact hR.trans ih (hR.stepped _)
  | elapse ticks _ ih => exact hR.trans ih (hR.frame _ _ _ _ _ (_ : Clock) _ _ _)

/-- Nothing but its instructions could make a hart privileged or unprivileged. -/
theorem stepwise_privileged
    (hhandler : ∀ mnemonic handler, table.handler? mnemonic = some handler →
      ∀ inst, Exec.Keeps (fun h h' => h'.privileged = h.privileged) (handler inst)) :
    Stepwise table fun h h' => h'.privileged = h.privileged where
  refl _ := rfl
  trans h₁₂ h₂₃ := h₂₃.trans h₁₂
  frame _ _ _ _ _ _ _ _ _ := rfl
  boundary h := (atBoundary_frame h).1
  fetch _ _ := rfl
  handler := hhandler
  raise _ _ := rfl

/-- The instructions of the standard sets do not. -/
theorem stepwise_privileged_of_standard {sets : List InstructionSet}
    (hsets : ∀ s ∈ sets, s ∈ InstructionSet.standard)
    (hbuild : DispatchTable.build sets = .ok table) :
    Stepwise table fun h h' => h'.privileged = h.privileged :=
  stepwise_privileged fun _ _ hfind inst h => (congrArg Hart.privileged
    ((DispatchTable.acts_of_handler? hsets hbuild hfind inst).setting h)).symm

end Riscv32.Hart
