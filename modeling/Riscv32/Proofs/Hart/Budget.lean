import Riscv32.Proofs.Hart.Exception
import Riscv32.Proofs.Hart.Failure
import Riscv32.Proofs.Hart.Trail

/-!
# Runs within a budget of cycles

A step of a hart that is not halted first looks at the limit, and if that is not reached it counts
one cycle, whatever else it does: it waits, fails to fetch, takes a trap, finds no handler, or
executes an instruction. No instruction touches the count, the limit or the debugger, and without a
debugger none asks for it. So the cycles that are left go down with every step that goes on, and a
run with a limit comes to an end. The host may do whatever it likes between two steps, if it leaves
those three alone.

## Main definitions

* `Hart.Ticks h h'` — `h'` is one cycle later than `h`.
* `Hart.Spends h r` — a step of `h` that gives `r` spends a cycle, or has none left.
* `Hart.Underway table host h n k` — `n` steps that went on lead from `h` to `k`.
* `Hart.Finishes table h calls o k` — a run from `h` ends after so many calls of a step.

## Main statements

* `Hart.spends_step`, every step.
* `Hart.Underway.counted`, the cycles of a run.
* `Hart.finishes_runToStop`, the end of a run.
* `Hart.run_within_budget`, the whole.
-/
namespace Riscv32

/-! ## Asking for the debugger -/

namespace Exec

variable {α β : Type} {x : Exec α} {f : α → Exec β} {inst : Instruction} {handler : Handler}
  {h h' : Hart} {e : ExecError}

/-- The action does not ask for the debugger. -/
def NeverAsks (x : Exec α) : Prop := ∀ h h', x h ≠ .error .debuggerRequested h'

theorem NeverAsks.bind (hx : NeverAsks x) (hf : ∀ a, NeverAsks (f a)) : NeverAsks (x >>= f) := by
  intro h h' he
  rcases bind_eq_error he with he | ⟨a, h₁, -, he⟩
  · exact hx h h' he
  · exact hf a h₁ h' he

/-- An action that first takes the hart as it is. -/
theorem neverAsks_of_get {f : Hart → Exec α} (hf : ∀ h, NeverAsks (f h)) :
    NeverAsks (get >>= f) := fun h => hf h h

theorem neverAsks_systemCall : NeverAsks systemCall := by
  have hread : ∀ i, NeverAsks (readX i) := fun _ _ _ => nofun
  refine (hread _).bind fun id => (hread _).bind fun a => (hread _).bind fun b =>
    (hread _).bind fun c => neverAsks_of_get fun h => ?_
  cases h.syscallHandler ⟨id, a, b, c⟩ h.memory with
  | mk answer memory =>
    rcases answer with e | ⟨v | code⟩ <;> exact fun _ _ => nofun

theorem neverAsks_environmentCall (inst : Instruction) : NeverAsks (environmentCall inst) := by
  refine neverAsks_of_get fun h => ?_
  cases h.privileged with
  | false => exact neverAsks_systemCall
  | true => cases h.privilege <;> exact fun _ _ => nofun

theorem neverAsks_machineReturn (inst : Instruction) : NeverAsks (machineReturn inst) := by
  refine neverAsks_of_get fun h => ?_
  split
  · exact fun _ _ => nofun
  · exact fun _ _ => nofun

/-- Of the system instructions only the breakpoint asks for the debugger, and only if there is
one. -/
theorem ne_debuggerRequested_of_system {mnemonic : String}
    (hmem : (mnemonic, handler) ∈ systemHandlers) (hdebugger : h.debugger = none) :
    handler inst h ≠ .error .debuggerRequested h' := by
  simp only [systemHandlers, List.mem_cons, Prod.mk.injEq, List.not_mem_nil, or_false] at hmem
  rcases hmem with ⟨-, rfl⟩ | ⟨-, rfl⟩ | ⟨-, rfl⟩ | ⟨-, rfl⟩ | ⟨-, rfl⟩ | ⟨-, rfl⟩
  · exact neverAsks_environmentCall inst h h'
  · have hbreak : environmentBreak inst h = .ok () h := by
      change (if h.debugger.isSome then throw ExecError.debuggerRequested else _ : Exec Unit) h = _
      rw [hdebugger]
      rfl
    intro he
    rw [hbreak] at he
    cases he
  · exact neverAsks_machineReturn inst h h'
  all_goals
    intro he
    cases he

/-- No instruction of the standard sets asks for a debugger that is not there. -/
theorem ne_debuggerRequested_of_handler? {table : DispatchTable} {sets : List InstructionSet}
    (hsets : ∀ s ∈ sets, s ∈ InstructionSet.standard)
    (hbuild : DispatchTable.build sets = .ok table)
    (hfind : table.handler? inst.mnemonic = some handler) (hdebugger : h.debugger = none) :
    handler inst h ≠ .error .debuggerRequested h' := by
  by_cases hsystem : inst.mnemonic ∈ systemHandlers.map Prod.fst
  · exact ne_debuggerRequested_of_system
      (DispatchTable.mem_systemHandlers_of_handler? hsets hbuild hfind hsystem) hdebugger
  · intro he
    have hacts := DispatchTable.acts_of_handler? hsets hbuild hfind inst
    have hsome := hacts.converts hsystem he 0
    cases hsome

end Exec

namespace Hart

variable {table : DispatchTable} {sets : List InstructionSet} {host : Hart → Hart → Prop}
  {h h' k b : Hart} {e : ExecError} {err : HartError} {limit : Counter} {n : Nat}

/-! ## One step -/

/-- The hart is one cycle later, with the same limit and the same debugger. -/
structure Ticks (h h' : Hart) : Prop where
  cycle : h'.cycle = h.cycle + 1
  maxCycles : h'.maxCycles = h.maxCycles
  debugger : h'.debugger = h.debugger

/-- What a step of a hart that is not halted may give: it has no cycle left, or spends one. It asks
for the debugger only if there is one. -/
inductive Spends (h : Hart) : EStateM.Result HartError Hart Unit → Prop
  | stops {limit : Counter} : h.spent = some limit → Spends h (.error (.cycleLimit limit h.pc) h)
  | goesOn {h' : Hart} : h.spent = none → Ticks h h' → Spends h (.ok () h')
  | fails {err : HartError} {h' : Hart} : h.spent = none → Ticks h h' →
    (h.debugger = none → ∀ pc, err ≠ .debuggerRequested pc) → Spends h (.error err h')

/-- A result that leaves a hart one cycle later, and no request for a debugger that is not there. -/
theorem spends_of_stateAfter {x : Hart → EStateM.Result HartError Hart Unit}
    (hspent : h.spent = none) (hticks : Ticks h (stateAfter x b))
    (hasks : h.debugger = none → ∀ pc h', x b ≠ .error (.debuggerRequested pc) h') :
    h.Spends (x b) := by
  simp only [stateAfter] at hticks
  cases hres : x b with
  | ok u h' =>
    rw [hres] at hticks
    exact .goesOn hspent hticks
  | error err h' =>
    rw [hres] at hticks
    refine .fails hspent hticks fun hdebugger pc herr => ?_
    rw [herr] at hres
    exact hasks hdebugger pc h' hres

/-- A failure asks for the debugger only if the instruction did. -/
theorem eq_of_fail_debuggerRequested {inst : Option Instruction} {pc : Word}
    (hfail : h.fail inst e = .error (.debuggerRequested pc) h') : e = .debuggerRequested := by
  unfold fail at hfail
  split at hfail
  · cases hfail
  · rfl
  · dsimp only at hfail
    split at hfail <;> cases hfail

/-- A failure changes none of what is counted. -/
theorem Ticks.fail (hticks : Ticks h k) (inst : Option Instruction) (e : ExecError) :
    Ticks h (stateAfter (fun h => h.fail inst e) k) := by
  obtain ⟨pc, traps, halted, exitCode, hfail⟩ := stateAfter_fail inst e k
  rw [hfail]
  exact ⟨hticks.cycle, hticks.maxCycles, hticks.debugger⟩

/-- Nor does an instruction. -/
theorem Ticks.of_sameSetting (hticks : Ticks h k) (hsetting : SameSetting k h') : Ticks h h' :=
  ⟨(congrArg Hart.cycle hsetting).symm.trans hticks.cycle,
    (congrArg Hart.maxCycles hsetting).symm.trans hticks.maxCycles,
    (congrArg Hart.debugger hsetting).symm.trans hticks.debugger⟩

section Table

variable (hsets : ∀ s ∈ sets, s ∈ InstructionSet.standard)
  (hbuild : DispatchTable.build sets = .ok table)
include hsets hbuild

theorem spends_execute (hspent : h.spent = none) (hticks : Ticks h k) (inst : Instruction) :
    h.Spends (k.execute table inst) := by
  unfold execute
  cases hfind : table.handler? inst.mnemonic with
  | none =>
    refine .fails hspent ⟨hticks.cycle, hticks.maxCycles, hticks.debugger⟩ fun _ pc => ?_
    nofun
  | some handler =>
    have hsetting := (DispatchTable.acts_of_handler? hsets hbuild hfind inst).setting k
    dsimp only
    cases hres : handler inst k with
    | ok u h₁ =>
      rw [stateAfter, hres] at hsetting
      have hdone := hticks.of_sameSetting hsetting
      exact .goesOn hspent ⟨hdone.cycle, hdone.maxCycles, hdone.debugger⟩
    | error e h₁ =>
      rw [stateAfter, hres] at hsetting
      refine spends_of_stateAfter (x := fun h => h.fail (some inst) e) hspent
        ((hticks.of_sameSetting hsetting).fail (some inst) e) fun hdebugger pc h' hfail => ?_
      obtain rfl := eq_of_fail_debuggerRequested hfail
      exact Exec.ne_debuggerRequested_of_handler? hsets hbuild hfind
        (hticks.debugger.trans hdebugger) hres

theorem spends_fetchExecute (hspent : h.spent = none) (hcycle : b.cycle = h.cycle)
    (hmaxCycles : b.maxCycles = h.maxCycles) (hdebugger : b.debugger = h.debugger) :
    h.Spends (b.fetchExecute table) := by
  unfold fetchExecute
  dsimp only
  cases hfetch : AddressSpace.fetch b.pc b.memory with
  | error e memory =>
    have hticks : Ticks h { b with cycle := b.cycle + 1, instructionPc := b.pc, memory } :=
      ⟨by rw [hcycle], hmaxCycles, hdebugger⟩
    refine spends_of_stateAfter (x := fun h => h.fail none (.memory e)) hspent
      (hticks.fail none (.memory e)) fun _ pc h' hfail => ?_
    cases eq_of_fail_debuggerRequested hfail
  | ok inst memory =>
    have hticks : Ticks h
        { b with cycle := b.cycle + 1, instructionPc := b.pc, memory, pc := b.pc + 4 } :=
      ⟨by rw [hcycle], hmaxCycles, hdebugger⟩
    exact spends_execute hsets hbuild hspent hticks inst

/-- Every step of a hart that is not halted spends a cycle, or has none left. -/
theorem spends_step (hgo : h.halted = false) : h.Spends (h.step table) := by
  unfold step
  rw [hgo, if_neg Bool.false_ne_true]
  cases hspent : h.spent with
  | some limit => exact .stops hspent
  | none =>
    obtain ⟨csrs, traps, timer, privilege, reservation, waiting, pc, hat⟩ := atBoundary_eq h
    dsimp only
    rw [hat]
    split
    · exact .goesOn hspent ⟨rfl, rfl, rfl⟩
    · exact spends_fetchExecute hsets hbuild hspent rfl rfl rfl

end Table

/-! ## The cycles of a run -/

/-- `n` steps that went on lead from `h` to `k`. Before each of them, and after the last, the hart
may become what the host makes of it. -/
inductive Underway (table : DispatchTable) (host : Hart → Hart → Prop) (h : Hart) :
    Nat → Hart → Prop
  | start : Underway table host h 0 h
  | step {n : Nat} {k k' : Hart} : Underway table host h n k → k.halted = false →
    k.step table = .ok () k' → Underway table host h (n + 1) k'
  | host {n : Nat} {k k' : Hart} : Underway table host h n k → host k k' →
    Underway table host h n k'

/-- What `n` cycles with the limit lead from `h` to. -/
structure Counted (limit : Counter) (h : Hart) (n : Nat) (k : Hart) : Prop where
  maxCycles : k.maxCycles = some limit
  debugger : k.debugger = none
  cycle : k.cycle.toNat = h.cycle.toNat + n
  bounded : n ≤ limit.toNat - h.cycle.toNat

theorem Counted.cycle_le (hk : Counted limit h n k) :
    k.cycle.toNat ≤ max limit.toNat h.cycle.toNat := by
  have hcycle := hk.cycle
  have hbounded := hk.bounded
  omega

/-- A hart has cycles left exactly if its count is below the limit. -/
theorem spent_eq_none_iff (hlimit : h.maxCycles = some limit) :
    h.spent = none ↔ h.cycle.toNat < limit.toNat := by
  simp [spent, hlimit, BitVec.le_def]

/-- A cycle that is below the limit is counted: the count does not overflow. -/
theorem Counted.ticks (hk : Counted limit h n k) (hspent : k.spent = none) (hticks : Ticks k h') :
    Counted limit h (n + 1) h' := by
  have hlt := (spent_eq_none_iff hk.maxCycles).1 hspent
  have hcycle := hk.cycle
  have hmax := limit.isLt
  refine ⟨hticks.maxCycles.trans hk.maxCycles, hticks.debugger.trans hk.debugger, ?_, by omega⟩
  rw [hticks.cycle, BitVec.toNat_add, hcycle]
  exact Nat.mod_eq_of_lt (by simp; omega)

/-- The host leaves the count, the limit and the debugger alone. -/
def Impartial (host : Hart → Hart → Prop) : Prop := ∀ k k', host k k' →
  k'.cycle = k.cycle ∧ k'.maxCycles = k.maxCycles ∧ k'.debugger = k.debugger

section Table

variable (hsets : ∀ s ∈ sets, s ∈ InstructionSet.standard)
  (hbuild : DispatchTable.build sets = .ok table)
include hsets hbuild

/-- Every step that goes on is counted. -/
theorem Underway.counted (hhost : Impartial host) (hlimit : h.maxCycles = some limit)
    (hdebugger : h.debugger = none) (hk : Underway table host h n k) : Counted limit h n k := by
  induction hk with
  | start => exact ⟨hlimit, hdebugger, rfl, Nat.zero_le _⟩
  | step _ hgo hstep ih =>
    have hspends := spends_step hsets hbuild hgo
    rw [hstep] at hspends
    cases hspends with
    | goesOn hspent hticks => exact ih.ticks hspent hticks
  | host _ hmakes ih =>
    obtain ⟨hcycle, hmax, hnone⟩ := hhost _ _ hmakes
    exact ⟨hmax.trans ih.maxCycles, hnone.trans ih.debugger, hcycle ▸ ih.cycle, ih.bounded⟩

end Table

/-! ## The end of a run -/

/-- A run from `h`, without a host, ends after so many calls of a step: the hart has halted, or the
last step fails and does not ask for the debugger. -/
inductive Finishes (table : DispatchTable) (h : Hart) : Nat → Outcome → Hart → Prop
  | exited {n : Nat} {k : Hart} : Underway table (fun _ _ => False) h n k → k.halted = true →
    Finishes table h n (.exited (k.exitCode.getD 0)) k
  | failed {n : Nat} {k k' : Hart} {err : HartError} : Underway table (fun _ _ => False) h n k →
    k.halted = false → k.step table = .error err k' → (∀ pc, err ≠ .debuggerRequested pc) →
    Finishes table h (n + 1) (.failed err) k'

theorem impartial_none : Impartial fun _ _ => False := fun _ _ => False.elim

/-- A run that has ended does not change if more steps are allotted. -/
theorem runToStop_succ (fuel : Nat) (hended : (h.runToStop table fuel).1 ≠ .unfinished) :
    h.runToStop table (fuel + 1) = h.runToStop table fuel := by
  induction fuel generalizing h with
  | zero =>
    cases hhalted : h.halted with
    | true => simp [runToStop, hhalted]
    | false => simp [runToStop, hhalted] at hended
  | succ fuel ih =>
    rw [runToStop] at hended ⊢
    conv_rhs => rw [runToStop]
    cases hhalted : h.halted with
    | true => rfl
    | false =>
      rw [hhalted] at hended
      simp only [Bool.false_eq_true, if_false] at hended ⊢
      cases hstep : h.step table with
      | ok u k =>
        rw [hstep] at hended
        exact ih hended
      | error err k => cases err <;> rfl

/-- A run that does not stop for the debugger is a run to its first stop. -/
theorem run_of_runToStop {m : Type → Type} [Monad m]
    (debug : DebuggerHandle → Word → Hart → m Hart) {fuel : Nat} {o : Outcome} (hfuel : 0 < fuel)
    (hrun : h.runToStop table fuel = (o, k)) (ho : ∀ pc, o ≠ .stopped pc) :
    h.run table debug fuel = pure (o, k) := by
  cases fuel with
  | zero => omega
  | succ fuel =>
    rw [run, hrun]
    cases o with
    | stopped pc => exact absurd rfl (ho pc)
    | _ => rfl

theorem Finishes.ne_stopped {calls : Nat} {o : Outcome} (hk : Finishes table h calls o k)
    (pc : Word) : o ≠ .stopped pc ∧ o ≠ .unfinished := by
  cases hk with
  | exited => exact ⟨nofun, nofun⟩
  | failed => exact ⟨nofun, nofun⟩

section Table

variable (hsets : ∀ s ∈ sets, s ∈ InstructionSet.standard)
  (hbuild : DispatchTable.build sets = .ok table)
include hsets hbuild

/-- A run is over once it has been allotted one step more than there are cycles left. -/
theorem finishes_runToStop {fuel : Nat} (hlimit : h.maxCycles = some limit)
    (hdebugger : h.debugger = none) (hk : Underway table (fun _ _ => False) h n k)
    (hfuel : limit.toNat - k.cycle.toNat < fuel) :
    ∃ calls, Finishes table h calls (k.runToStop table fuel).1 (k.runToStop table fuel).2 := by
  induction fuel generalizing n k with
  | zero => omega
  | succ fuel ih =>
    have hcounted := hk.counted hsets hbuild impartial_none hlimit hdebugger
    rw [runToStop]
    cases hhalted : k.halted with
    | true => exact ⟨n, .exited hk hhalted⟩
    | false =>
      simp only [Bool.false_eq_true, if_false]
      have hspends := spends_step hsets hbuild hhalted
      generalize hstep : k.step table = r at hspends
      cases hspends with
      | stops hspent => exact ⟨n + 1, .failed hk hhalted hstep nofun⟩
      | goesOn hspent hticks =>
        -- the cycles that are left have gone down
        have hlt := (spent_eq_none_iff hcounted.maxCycles).1 hspent
        have hnext := (hcounted.ticks hspent hticks).cycle
        have hcycle := hcounted.cycle
        exact ih (hk.step hhalted hstep) (by omega)
      | @fails err k' hspent hticks hasks =>
        have herr := hasks hcounted.debugger
        refine ⟨n + 1, ?_⟩
        cases err with
        | debuggerRequested pc => exact absurd rfl (herr pc)
        | _ => exact .failed hk hhalted hstep herr

/-- A run that ends has made no more calls than there were cycles left, and one. -/
theorem Finishes.calls_le {calls : Nat} {o : Outcome} (hlimit : h.maxCycles = some limit)
    (hdebugger : h.debugger = none) (hk : Finishes table h calls o k) :
    calls ≤ limit.toNat - h.cycle.toNat + 1 ∧
      k.cycle.toNat ≤ max limit.toNat h.cycle.toNat := by
  cases hk with
  | exited hk =>
    have hcounted := hk.counted hsets hbuild impartial_none hlimit hdebugger
    exact ⟨Nat.le_succ_of_le hcounted.bounded, hcounted.cycle_le⟩
  | failed hk hgo hstep =>
    have hcounted := hk.counted hsets hbuild impartial_none hlimit hdebugger
    refine ⟨Nat.succ_le_succ hcounted.bounded, ?_⟩
    have hspends := spends_step hsets hbuild hgo
    rw [hstep] at hspends
    cases hspends with
    | stops => exact hcounted.cycle_le
    | fails hspent hticks => exact (hcounted.ticks hspent hticks).cycle_le

/-- **A run with a limit ends.** On a hart with a limit and without a debugger every step spends a
cycle or finds that none is left, whatever the guest does and whatever the host does in between. So
no more steps go on than cycles were left, the count never passes the larger of the limit and its
first value, and it does not overflow. A run makes at most one call more, whatever number it is
allotted beyond that, and ends with the exit code of a halted hart or with the error of a step. -/
theorem run_within_budget (hhost : Impartial host) (hlimit : h.maxCycles = some limit)
    (hdebugger : h.debugger = none) :
    (∀ n k, Underway table host h n k →
      n ≤ limit.toNat - h.cycle.toNat ∧ k.cycle.toNat = h.cycle.toNat + n ∧
        k.cycle.toNat ≤ max limit.toNat h.cycle.toNat ∧ k.debugger = none ∧
        (k.halted = false → k.Spends (k.step table))) ∧
    ∃ calls o k, Finishes table h calls o k ∧ calls ≤ limit.toNat - h.cycle.toNat + 1 ∧
      k.cycle.toNat ≤ max limit.toNat h.cycle.toNat ∧
      ∀ fuel, limit.toNat - h.cycle.toNat + 1 ≤ fuel → h.runToStop table fuel = (o, k) ∧
        ∀ {m : Type → Type} [Monad m] (debug : DebuggerHandle → Word → Hart → m Hart),
          h.run table debug fuel = pure (o, k) := by
  constructor
  · intro n k hk
    have hcounted := hk.counted hsets hbuild hhost hlimit hdebugger
    exact ⟨hcounted.bounded, hcounted.cycle, hcounted.cycle_le, hcounted.debugger,
      spends_step hsets hbuild⟩
  · obtain ⟨calls, hfinishes⟩ := finishes_runToStop hsets hbuild hlimit hdebugger .start
      (Nat.lt_succ_self (limit.toNat - h.cycle.toNat))
    obtain ⟨hcalls, hcycle⟩ := hfinishes.calls_le hsets hbuild hlimit hdebugger
    refine ⟨calls, _, _, hfinishes, hcalls, hcycle, fun fuel hfuel => ?_⟩
    have hsame : h.runToStop table fuel =
        h.runToStop table (limit.toNat - h.cycle.toNat + 1) := by
      induction fuel, hfuel using Nat.le_induction with
      | base => rfl
      | succ fuel hfuel ih =>
        rw [← ih]
        refine runToStop_succ fuel ?_
        rw [ih]
        exact (hfinishes.ne_stopped 0).2
    refine ⟨hsame, fun debug => ?_⟩
    exact run_of_runToStop debug (Nat.lt_of_lt_of_le (Nat.succ_pos _) hfuel) hsame
      fun pc => (hfinishes.ne_stopped pc).1

end Table

/-- A privileged hart with three cycles in a memory without sections: every fetch fails, and so does
that of the handler. -/
def faulting : Hart := { privileged := true, privilege := .machine, maxCycles := some 3 }

/-- The host moves the clock. -/
def MovesClock (h h' : Hart) : Prop := ∃ ticks, h' = h.elapse ticks

theorem impartial_movesClock : Impartial MovesClock := by
  rintro k k' ⟨ticks, rfl⟩
  obtain ⟨clock, hclock⟩ := elapse_eq ticks k
  rw [hclock]
  exact ⟨rfl, rfl, rfl⟩

/-- The traps do not prolong the run: it ends at the limit, also if the clock moves on the way. -/
theorem run_within_budget_of_faulting :
    (∀ n k, Underway systemTable MovesClock faulting n k → n ≤ 3 ∧ k.cycle.toNat = n) ∧
      ∃ calls k, Finishes systemTable faulting calls (.failed (.cycleLimit 3 0)) k ∧ calls ≤ 4 ∧
        k.cycle.toNat ≤ 3 ∧ faulting.runToStop systemTable 10 = (.failed (.cycleLimit 3 0), k) := by
  have hleft : (3 : Counter).toNat = 3 ∧ faulting.cycle.toNat = 0 := ⟨rfl, rfl⟩
  have hlimit : faulting.maxCycles = some 3 := rfl
  have hbudget := run_within_budget systemSets_standard build_systemSets impartial_movesClock
    hlimit rfl
  rw [hleft.1, hleft.2] at hbudget
  obtain ⟨hsteps, calls, o, k, hfinishes, hcalls, hcycle, hrun⟩ := hbudget
  have hten := (hrun 10 (by decide)).1
  have hout : (faulting.runToStop systemTable 10).1 = .failed (.cycleLimit 3 0) := by
    decide +kernel
  rw [hten] at hout
  obtain rfl : o = .failed (.cycleLimit 3 0) := hout
  refine ⟨fun n k hk => ?_, calls, k, hfinishes, hcalls, hcycle, hten⟩
  obtain ⟨hn, hcounted, -⟩ := hsteps n k hk
  exact ⟨hn, by omega⟩

end Hart
end Riscv32
