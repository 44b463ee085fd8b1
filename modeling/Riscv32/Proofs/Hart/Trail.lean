import Riscv32.Proofs.Hart.Executable
import Riscv32.Proofs.Hart.Fault
import Riscv32.Proofs.Hart.Survival
import Riscv32.Proofs.Memory.Room

/-!
# Runs and the instructions in them

A run is a list of steps with clock advances and calls of the host between them, and the harts
before its steps say all there is to know about it: what a step delivers, which instruction it
executes, and what that does. Outside of its boundary and its instruction a step changes nothing but
the memory that a fetch maps, the counters, and where and whether the hart goes on.

## Main definitions

* `Hart.started h` — the hart after the boundary of the next step.
* `Hart.executing? h` — the instruction that the next step executes, and the hart that does.
* `Hart.instructed table h` — that hart after its instruction.
* `Hart.AtReset h` — no trap, no armed timer and no reservation is left from before.
* `Hart.Trail table host h₀ steps h` — a run from `h₀` to `h` with these harts before its steps.

## Main statements

* `DispatchTable.handler?_eq_of_mem`, a table finds under a mnemonic what the standard has there.
* `Hart.stepped_frame`, a step beside its boundary and its instruction.
* `Hart.atReset_launch`, every hart that is launched after reset.
-/
namespace Riscv32

/-- Whatever tables of standard sets find under the mnemonic of a standard instruction is that
instruction. -/
theorem DispatchTable.handler?_eq_of_mem {sets : List InstructionSet} {table : DispatchTable}
    {s : InstructionSet} {r : String × Handler} {handler : Handler}
    (hsets : ∀ s ∈ sets, s ∈ InstructionSet.standard) (hbuild : build sets = .ok table)
    (hs : s ∈ InstructionSet.standard) (hr : r ∈ s.handlers)
    (hfind : table.handler? r.1 = some handler) : handler = r.2 := by
  obtain ⟨s', hs', r', hr', hname, rfl⟩ := exists_set_of_handler? hbuild hfind
  have hfound := handler?_of_mem build_standard (hsets s' hs') hr'
  rw [hname, handler?_of_mem build_standard hs hr] at hfound
  exact (Option.some.inj hfound).symm

namespace Hart

variable {table : DispatchTable} {sets : List InstructionSet} {host : Trap → Prop}
  {h h₀ b k : Hart} {inst : Instruction} {steps : List Hart}

/-- The hart after the boundary of the next step, if the step gets that far. -/
def started (h : Hart) : Hart := if h.halted || h.spent.isSome then h else h.atBoundary

/-- The instruction that the next step executes, if it gets that far, and the hart that does. -/
def executing? (h : Hart) : Option (Instruction × Hart) :=
  h.fetching?.bind fun b =>
    match AddressSpace.fetch b.pc b.memory with
    | .ok inst memory => some (inst, b.executing memory)
    | .error _ _ => none

/-- The hart after the instruction of the next step, whether this fails or not. -/
def instructed (table : DispatchTable) (h : Hart) : Hart :=
  match h.executing? with
  | none => h.started
  | some (inst, k) =>
    match table.handler? inst.mnemonic with
    | none => k
    | some handler => stateAfter (handler inst) k

/-- Whether a hart executes an instruction without a failure. -/
def completes (table : DispatchTable) (inst : Instruction) (k : Hart) : Bool :=
  match table.handler? inst.mnemonic with
  | none => false
  | some handler =>
    match handler inst k with
    | .ok _ _ => true
    | .error _ _ => false

/-! ## The parts of a step -/

/-- The boundary of a privileged hart is a poll and a delivery. -/
theorem started_eq (h : Hart) : h.started =
    if h.halted || h.spent.isSome || !h.privileged then h else h.pollTimer.deliverTrap.2 := by
  rw [started]
  by_cases hgo : (h.halted || h.spent.isSome) = true
  · rw [if_pos hgo, hgo, Bool.true_or, if_pos rfl]
  · rw [if_neg hgo, atBoundary, Bool.eq_false_iff.2 hgo, Bool.false_or]
    cases h.privileged <;> rfl

/-- A hart that gets as far as a fetch has its boundary behind it. -/
theorem eq_of_fetching? (hb : h.fetching? = some b) : b = { h.started with waiting := false } := by
  obtain ⟨hhalted, hspent, -, rfl⟩ := fetching?_eq_some hb
  rw [started, hhalted, hspent]
  rfl

theorem executing?_eq_some (hx : h.executing? = some (inst, k)) :
    ∃ b memory, h.fetching? = some b ∧ AddressSpace.fetch b.pc b.memory = .ok inst memory ∧
      k = b.executing memory := by
  obtain ⟨b, hb, hfetched⟩ := Option.bind_eq_some_iff.1 hx
  cases hfetch : AddressSpace.fetch b.pc b.memory with
  | error e memory =>
    rw [hfetch] at hfetched
    cases hfetched
  | ok inst' memory =>
    rw [hfetch] at hfetched
    cases hfetched
    exact ⟨b, memory, hb, hfetch, rfl⟩

/-- The hart that executes an instruction differs from the one after the boundary in where it is,
in what a fetch maps, and in that it does not wait. -/
theorem eq_of_executing? (hx : h.executing? = some (inst, k)) : ∃ memory,
    k = ({ h.started with waiting := false } : Hart).executing memory := by
  obtain ⟨b, memory, hb, -, rfl⟩ := executing?_eq_some hx
  exact ⟨memory, by rw [← eq_of_fetching? hb]⟩

/-- The step of an instruction is counted, or has the consequence of its failure. -/
theorem step_of_executing? {handler : Handler} (hx : h.executing? = some (inst, k))
    (hfind : table.handler? inst.mnemonic = some handler) :
    h.step table = match handler inst k with
      | .ok _ h' => .ok () { h' with instret := h'.instret + 1 }
      | .error e h' => h'.fail (some inst) e := by
  obtain ⟨b, memory, hb, hfetch, rfl⟩ := executing?_eq_some hx
  cases hres : handler inst (b.executing memory) with
  | ok a h' =>
    rw [step_of_fetching? hb]
    exact fetchExecute_of_ok hfetch hfind hres
  | error e h' => exact step_of_error hb hfetch hfind hres

/-- What a failure may change. -/
theorem stateAfter_fail (inst : Option Instruction) (e : ExecError) (h : Hart) :
    ∃ pc traps halted exitCode, stateAfter (fun h => h.fail inst e) h =
      { h with pc, traps, halted, exitCode } := by
  simp only [stateAfter]
  rcases fail_eq inst e h with ⟨t, hfail⟩ | ⟨err, hfail⟩ | ⟨err, hfail⟩
  · rw [hfail]
    exact ⟨_, _, _, _, rfl⟩
  · rw [hfail]
    exact ⟨_, _, _, _, rfl⟩
  · rw [hfail]
    exact ⟨_, _, _, _, rfl⟩

theorem executing?_of_fetching? (hb : h.fetching? = some b) : h.executing? =
    match AddressSpace.fetch b.pc b.memory with
    | .ok inst memory => some (inst, b.executing memory)
    | .error _ _ => none := by
  rw [executing?, hb, Option.bind_some]

/-- Beside its boundary and its instruction a step changes where the hart is and whether it goes on,
the counters, the queue that a failure is put in, and the memory that a failing fetch maps. -/
theorem stepped_frame (table : DispatchTable) (h : Hart) :
    ∃ pc instructionPc memory cycle instret halted exitCode waiting traps, h.stepped table =
      { h.instructed table with
        pc, instructionPc, memory, cycle, instret, halted, exitCode, waiting, traps } := by
  by_cases hgo : (h.halted || h.spent.isSome) = true
  · have hnone : h.executing? = none := by
      rw [executing?, fetching?, if_pos hgo]
      rfl
    rw [stepped_of_done hgo, instructed, hnone, started, if_pos hgo]
    exact ⟨_, _, _, _, _, _, _, _, _, rfl⟩
  cases hb : h.fetching? with
  | none =>
    have hwaits : (h.atBoundary.waiting && !h.atBoundary.traps.hasInterrupt) = true := by
      rw [fetching?, if_neg hgo] at hb
      by_contra hnot
      rw [if_neg hnot] at hb
      cases hb
    have hnone : h.executing? = none := by
      rw [executing?, hb]
      rfl
    rw [stepped_of_waits table hgo hwaits, instructed, hnone, started, if_neg hgo]
    exact ⟨_, _, _, _, _, _, _, _, _, rfl⟩
  | some b =>
    have hx := executing?_of_fetching? hb
    cases hfetch : AddressSpace.fetch b.pc b.memory with
    | error e memory =>
      rw [hfetch] at hx
      obtain ⟨pc, traps, halted, exitCode, hfail⟩ := stateAfter_fail none (.memory e)
        { b with cycle := b.cycle + 1, instructionPc := b.pc, memory }
      have hstepped : h.stepped table = stateAfter (fun h => h.fail none (.memory e))
          { b with cycle := b.cycle + 1, instructionPc := b.pc, memory } := by
        simp only [stepped_of_fetching? hb, stateAfter, fetchExecute, hfetch]
      rw [hstepped, hfail, instructed, hx, eq_of_fetching? hb]
      exact ⟨_, _, _, _, _, _, _, _, _, rfl⟩
    | ok inst memory =>
      rw [hfetch] at hx
      cases hfind : table.handler? inst.mnemonic with
      | none =>
        have hstepped : h.stepped table = (b.executing memory).halt 1 := by
          simp only [stepped_of_fetching? hb, stateAfter, fetchExecute, hfetch, execute, hfind]
          rfl
        simp only [hstepped, instructed, hx, hfind]
        exact ⟨_, _, _, _, _, _, _, _, _, rfl⟩
      | some handler =>
        have hstep := step_of_executing? hx hfind
        simp only [instructed, hx, hfind, stepped, stateAfter]
        cases hres : handler inst (b.executing memory) with
        | ok a h' =>
          rw [hres] at hstep
          rw [hstep]
          exact ⟨_, _, _, _, _, _, _, _, _, rfl⟩
        | error e h' =>
          rw [hres] at hstep
          obtain ⟨pc, traps, halted, exitCode, hfail⟩ := stateAfter_fail (some inst) e h'
          simp only [stateAfter] at hfail
          rw [hstep, hfail]
          exact ⟨_, _, _, _, _, _, _, _, _, rfl⟩

/-! ## Runs -/

/-- The hart is as it leaves reset in all that concerns traps, the timer and the reservation. -/
structure AtReset (h : Hart) : Prop where
  kinds : h.csrs.Virtual
  pending : h.csrs.raw Csr.mip = 0
  traps : h.traps = .empty
  timer : h.timer.armed = false
  reservation : h.reservation = none

theorem atReset_ofConfig (c : Config) : AtReset (ofConfig c) where
  kinds := Csr.Store.virtual_initial
  pending := by
    change Csr.Store.initial.raw Csr.mip = 0
    decide +kernel
  traps := rfl
  timer := rfl
  reservation := rfl

/-- Every hart that is launched after reset, whatever the memory holds. -/
theorem atReset_launch (c : Config) (memory : AddressSpace) (entry : Option Word) :
    AtReset (({ ofConfig c with memory } : Hart).launch entry).2 := by
  obtain ⟨regs, memory', pc, hlaunch, -⟩ := launch_frame { ofConfig c with memory } entry
  rw [hlaunch]
  exact ⟨(atReset_ofConfig c).kinds, (atReset_ofConfig c).pending, rfl, rfl, rfl⟩

/-- Steps, clock advances and calls of the host lead from `h₀` to `h`. The list holds the harts
before each of the steps, and the traps that the host raises are among those that it may. -/
inductive Trail (table : DispatchTable) (host : Trap → Prop) (h₀ : Hart) : List Hart → Hart → Prop
  | start : Trail table host h₀ [] h₀
  | step {steps : List Hart} {h : Hart} : Trail table host h₀ steps h →
    Trail table host h₀ (steps ++ [h]) (h.stepped table)
  | elapse {steps : List Hart} {h : Hart} (ticks : Counter) : Trail table host h₀ steps h →
    Trail table host h₀ steps (h.elapse ticks)
  | raise {steps : List Hart} {h : Hart} (t : Trap) : host t → Trail table host h₀ steps h →
    Trail table host h₀ steps (h.raise t)

end Hart
end Riscv32
