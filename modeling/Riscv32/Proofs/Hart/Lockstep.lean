import Riscv32.Proofs.Hart.Alike
import Riscv32.Proofs.Hart.Stepwise

/-!
# Harts in lockstep

Two harts that are alike stay so, step after step, and return the same results: neither what the
decode caches hold, nor the marks of registers, nor the wish for reports can be seen in a run. So a
hart with caches runs like one that decodes the current bytes at every fetch, even if a program
writes over its own instructions.

## Main definitions

* `Hart.stepBy` — a step that fetches in a given way.
* `Hart.results` — the results of a number of steps, and the hart after them.

## Main statements

* `Hart.sameResult_stepBy`, one step.
* `Hart.alike_stepped`, coherent decode caches stay coherent.
* `Hart.lockstep`, any number of steps.
-/
namespace Riscv32

namespace Hart

/-- Like `fetchExecute`, but fetching as given. -/
def fetchExecuteBy (fetch : Word → Access Instruction) (table : DispatchTable) (h : Hart) :
    EStateM.Result HartError Hart Unit :=
  let h := { h with cycle := h.cycle + 1, instructionPc := h.pc }
  match fetch h.pc h.memory with
  | .error e memory => { h with memory }.fail none (.memory e)
  | .ok inst memory => { h with memory, pc := h.pc + 4 }.execute table inst

/-- Like `step`, but fetching as given. -/
def stepBy (fetch : Word → Access Instruction) (table : DispatchTable) (h : Hart) :
    EStateM.Result HartError Hart Unit :=
  if h.halted then .ok () h
  else
    match h.spent with
    | some limit => .error (.cycleLimit limit h.pc) h
    | none =>
      let h := h.atBoundary
      if h.waiting && !h.traps.hasInterrupt then .ok () { h with cycle := h.cycle + 1 }
      else { h with waiting := false }.fetchExecuteBy fetch table

theorem stepBy_fetch : stepBy AddressSpace.fetch = step := rfl

/-- The results of a number of steps, and the hart after them. -/
def results (step : Hart → EStateM.Result HartError Hart Unit) :
    Nat → Hart → List (Except HartError Unit) × Hart
  | 0, h => ([], h)
  | n + 1, h =>
    match step h with
    | .ok () h => ((.ok () :: (results step n h).1), (results step n h).2)
    | .error e h => ((.error e :: (results step n h).1), (results step n h).2)

theorem results_succ (step : Hart → EStateM.Result HartError Hart Unit) (n : Nat) (h : Hart) :
    (results step (n + 1) h).2 = (results step n (stateAfter (ε := HartError) step h)).2 := by
  rw [results]
  unfold stateAfter
  cases step h <;> rfl

variable {h k : Hart}

/-! ## One step -/

theorem Indistinct.pollTimer (hk : h.Indistinct k) : h.pollTimer.Indistinct k.pollTimer := by
  obtain ⟨⟨regs, memory, traced, rfl, hr, hm⟩, hhost⟩ := hk
  unfold Hart.pollTimer
  dsimp only
  split
  · exact ⟨⟨_, _, _, rfl, hr, hm⟩, hhost⟩
  · exact ⟨⟨_, _, _, rfl, hr, hm⟩, hhost⟩

theorem Indistinct.deliverTrap (hk : h.Indistinct k) :
    h.deliverTrap.2.Indistinct k.deliverTrap.2 := by
  obtain ⟨⟨regs, memory, traced, rfl, hr, hm⟩, hhost⟩ := hk
  unfold Hart.deliverTrap
  dsimp only
  split
  · exact ⟨⟨_, _, _, rfl, hr, hm⟩, hhost⟩
  · exact ⟨⟨_, _, _, rfl, hr, hm⟩, hhost⟩

theorem Indistinct.atBoundary (hk : h.Indistinct k) : h.atBoundary.Indistinct k.atBoundary := by
  have hprivileged : k.privileged = h.privileged := by
    obtain ⟨⟨regs, memory, traced, rfl, -⟩, -⟩ := hk
    rfl
  unfold Hart.atBoundary
  rw [hprivileged]
  split
  · exact hk.pollTimer.deliverTrap
  · exact hk

/-- A failure has the same consequence. -/
theorem sameResult_fail (hk : h.Indistinct k) (inst : Option Instruction) (e : ExecError) :
    SameResult Indistinct (h.fail inst e) (k.fail inst e) := by
  obtain ⟨⟨regs, memory, traced, rfl, hr, hm⟩, hhost⟩ := hk
  unfold fail
  split
  · exact .error _ ⟨⟨_, _, _, rfl, hr, hm⟩, hhost⟩
  · exact .error _ ⟨⟨_, _, _, rfl, hr, hm⟩, hhost⟩
  · dsimp only
    split
    · exact .ok () ⟨⟨_, _, _, rfl, hr, hm⟩, hhost⟩
    · exact .error _ ⟨⟨_, _, _, rfl, hr, hm⟩, hhost⟩

section Table

variable {table : DispatchTable}
  (hblind : ∀ mnemonic handler, table.handler? mnemonic = some handler →
    ∀ inst, Blind Indistinct (handler inst))

include hblind

theorem sameResult_execute (hk : h.Indistinct k) (inst : Instruction) :
    SameResult Indistinct (h.execute table inst) (k.execute table inst) := by
  unfold execute
  cases hfind : table.handler? inst.mnemonic with
  | none =>
    obtain ⟨⟨regs, memory, traced, rfl, hr, hm⟩, hhost⟩ := hk
    exact .error _ ⟨⟨_, _, _, rfl, hr, hm⟩, hhost⟩
  | some handler =>
    have hrun := hblind _ handler hfind inst h k hk
    dsimp only
    generalize handler inst h = x, handler inst k = y at hrun
    cases hrun with
    | ok a hk' =>
      obtain ⟨⟨regs, memory, traced, rfl, hr, hm⟩, hhost⟩ := hk'
      exact .ok () ⟨⟨_, _, _, rfl, hr, hm⟩, hhost⟩
    | error e hk' => exact sameResult_fail hk' (some inst) e

section Fetch

variable {fetch fetch' : Word → Access Instruction}
  (hfetch : ∀ addr m n, m.Alike n → SameResult AddressSpace.Alike (fetch addr m) (fetch' addr n))

include hfetch

theorem sameResult_fetchExecuteBy (hk : h.Indistinct k) :
    SameResult Indistinct (h.fetchExecuteBy fetch table) (k.fetchExecuteBy fetch' table) := by
  obtain ⟨⟨regs, memory, traced, rfl, hr, hm⟩, hhost⟩ := hk
  have hinst := hfetch h.pc h.memory memory hm
  unfold fetchExecuteBy
  dsimp only
  generalize fetch h.pc h.memory = x, fetch' h.pc memory = y at hinst
  cases hinst with
  | ok inst hm' =>
    refine sameResult_execute hblind ?_ inst
    exact ⟨⟨_, _, _, rfl, hr, hm'⟩, hhost⟩
  | error e hm' =>
    refine sameResult_fail ?_ none (.memory e)
    exact ⟨⟨_, _, _, rfl, hr, hm'⟩, hhost⟩

/-- Steps whose fetches give the same instructions give the same result. -/
theorem sameResult_stepBy (hk : h.Indistinct k) :
    SameResult Indistinct (h.stepBy fetch table) (k.stepBy fetch' table) := by
  have hboundary := hk.atBoundary
  have hsame : k.halted = h.halted ∧ k.spent = h.spent ∧ k.pc = h.pc := by
    obtain ⟨⟨regs, memory, traced, rfl, -⟩, -⟩ := hk
    exact ⟨rfl, rfl, rfl⟩
  unfold stepBy
  rw [hsame.1, hsame.2.1, hsame.2.2]
  split
  · exact .ok () hk
  cases h.spent with
  | some limit => exact .error _ hk
  | none =>
    generalize h.atBoundary = h', k.atBoundary = k' at hboundary
    obtain ⟨⟨regs, memory, traced, rfl, hr, hm⟩, hhost⟩ := hboundary
    dsimp only
    split
    · exact .ok () ⟨⟨_, _, _, rfl, hr, hm⟩, hhost⟩
    · refine sameResult_fetchExecuteBy hblind hfetch ?_
      exact ⟨⟨_, _, _, rfl, hr, hm⟩, hhost⟩

end Fetch

end Table

section Sets

variable {sets : List InstructionSet} {table : DispatchTable}
  (hsets : ∀ s ∈ sets, s ∈ InstructionSet.standard ∨ s.Unaware)
  (hbuild : DispatchTable.build sets = .ok table)

include hsets hbuild

/-- Harts that cannot be told apart stay so in a step. -/
theorem indistinct_stepped (hk : h.Indistinct k) :
    (h.stepped table).Indistinct (k.stepped table) := by
  have hsame := sameResult_stepBy
    (fun _ _ hfind => DispatchTable.blind_of_handler? hsets hbuild hfind)
    AddressSpace.blind_fetch hk
  rw [stepBy_fetch] at hsame
  unfold stepped stateAfter
  generalize h.step table = r, k.step table = r' at hsame ⊢
  cases hsame with
  | ok a hk' => exact hk'
  | error e hk' => exact hk'

/-- Coherent caches and a host that does not see them stay so in a step. -/
theorem alike_stepped (hcoherent : h.memory.Alike h.memory) (hhost : h.syscallHandler.Unaware) :
    (h.stepped table).memory.Alike (h.stepped table).memory ∧
      (h.stepped table).syscallHandler.Unaware := by
  have hself : h.Indistinct h := ⟨⟨_, _, _, rfl, ⟨_, _, rfl⟩, hcoherent⟩, hhost⟩
  have hstepped := indistinct_stepped hsets hbuild hself
  obtain ⟨regs, memory, traced, heq, -, hm⟩ := hstepped.alike
  have hmemory : (h.stepped table).memory = memory := congrArg Hart.memory heq
  rw [← hmemory] at hm
  exact ⟨hm, hstepped.unaware⟩

end Sets

/-! ## A run -/

/-- Steps that give the same result one by one give the same results together. -/
theorem results_eq {step step' : Hart → EStateM.Result HartError Hart Unit}
    (hstep : ∀ h k, h.Indistinct k → SameResult Indistinct (step h) (step' k))
    (hk : h.Indistinct k) (n : Nat) :
    (results step n h).1 = (results step' n k).1 ∧
      (results step n h).2.Indistinct (results step' n k).2 := by
  induction n generalizing h k with
  | zero => exact ⟨rfl, hk⟩
  | succ n ih =>
    have hhead := hstep h k hk
    unfold results
    generalize step h = x, step' k = y at hhead
    cases hhead with
    | ok a hk' =>
      obtain ⟨hresults, hend⟩ := ih hk'
      exact ⟨congrArg (.ok () :: ·) hresults, hend⟩
    | error e hk' =>
      obtain ⟨hresults, hend⟩ := ih hk'
      exact ⟨congrArg (.error e :: ·) hresults, hend⟩

/-- Harts that are alike return the same results for any number of steps and stay alike, and the
results are those of a hart that decodes the current bytes at every fetch. -/
theorem lockstep {sets : List InstructionSet} {table : DispatchTable}
    (hsets : ∀ s ∈ sets, s ∈ InstructionSet.standard ∨ s.Unaware)
    (hbuild : DispatchTable.build sets = .ok table) (hhost : h.syscallHandler.Unaware)
    (hk : h.Alike k) (n : Nat) :
    (results (step table) n h).1 = (results (step table) n k).1 ∧
      (results (step table) n h).2.Alike (results (step table) n k).2 ∧
      (results (step table) n h).1 = (results (stepBy AddressSpace.decodeAt table) n k).1 ∧
      (results (step table) n h).2.Alike (results (stepBy AddressSpace.decodeAt table) n k).2 := by
  have hblind : ∀ mnemonic handler, table.handler? mnemonic = some handler →
      ∀ inst, Blind Indistinct (handler inst) :=
    fun _ _ hfind => DispatchTable.blind_of_handler? hsets hbuild hfind
  have hcached := results_eq
    (fun h k => sameResult_stepBy hblind AddressSpace.blind_fetch) ⟨hk, hhost⟩ n
  have hdecoding := results_eq
    (fun h k => sameResult_stepBy hblind fun addr m n => AddressSpace.sameResult_fetch addr)
    ⟨hk, hhost⟩ n
  rw [stepBy_fetch] at hcached hdecoding
  exact ⟨hcached.1, hcached.2.alike, hdecoding.1, hdecoding.2.alike⟩

/-! ## A program that writes over itself -/

/-- The table of the base integer instructions. -/
def integerTable : DispatchTable := (DispatchTable.build [.integer]).toOption.getD {}

/-- Code that stores over the upper half of its second instruction and the lower half of its
third: `addi x7, x0, 1` becomes `addi x7, x0, 2`, and `addi x8, x0, 3` becomes
`addi x9, x0, 3`. -/
def selfModifyingCode : ByteStore :=
  .ofList ([0x00532323, 0x00100393, 0x00300413].flatMap (littleEndian 4))

/-- The last two instructions as they are before the store. -/
def remembered : DecodeCache :=
  ((∅ : DecodeCache).insert 1 ⟨"addi", [7, 0, 1], 0x00100393, .i, 0⟩).insert 2
    ⟨"addi", [8, 0, 3], 0x00300413, .i, 0⟩

theorem coherent_remembered : remembered.Coherent selfModifyingCode := by
  have hsecond : decode (Section.wordInSlot selfModifyingCode 1)
      = .ok ⟨"addi", [7, 0, 1], 0x00100393, .i, 0⟩ := by decide +kernel
  have hthird : decode (Section.wordInSlot selfModifyingCode 2)
      = .ok ⟨"addi", [8, 0, 3], 0x00300413, .i, 0⟩ := by decide +kernel
  exact ((DecodeCache.coherent_empty _).insert hsecond).insert hthird

/-- A hart at that code. -/
def selfModifying (decoded : DecodeCache) : Hart :=
  { regs := (({} : RegisterFile).write 5 0x04930020).write 6 0x1000
    pc := 0x1000
    memory :=
      { sections := [⟨".text", "", 0x1000, .writableCode, .bytes selfModifyingCode decoded⟩] } }

theorem alike_selfModifying :
    (selfModifying remembered).Alike { selfModifying ∅ with traced := true } :=
  ⟨_, _, _, rfl, ⟨_, _, rfl⟩, _, rfl,
    .cons (.bytes _ _ _ _ coherent_remembered (DecodeCache.coherent_empty _)) .nil⟩

/-- What was remembered of instructions that are written over is not executed. -/
theorem lockstep_of_selfModifying :
    (selfModifying remembered).Alike { selfModifying ∅ with traced := true } ∧
      (results (step integerTable) 3 (selfModifying remembered)).1
        = (results (step integerTable) 3 { selfModifying ∅ with traced := true }).1 ∧
      (results (step integerTable) 3 (selfModifying remembered)).1
        = (results (stepBy AddressSpace.decodeAt integerTable) 3
            { selfModifying ∅ with traced := true }).1 ∧
      (results (step integerTable) 3 (selfModifying remembered)).2.regs.peek 7 = 2 ∧
      (results (step integerTable) 3 (selfModifying remembered)).2.regs.peek 8 = 0 ∧
      (results (step integerTable) 3 (selfModifying remembered)).2.regs.peek 9 = 3 := by
  have hbuild : DispatchTable.build [.integer] = .ok integerTable :=
    DispatchTable.build_eq_ok (by decide +kernel)
  obtain ⟨hresults, -, hdecoding, -⟩ := lockstep (by simp [InstructionSet.standard]) hbuild
    SyscallHandler.unaware_basic alike_selfModifying 3
  exact ⟨alike_selfModifying, hresults, hdecoding, by decide +kernel⟩

end Hart
end Riscv32
