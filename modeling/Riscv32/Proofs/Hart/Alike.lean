import Riscv32.Proofs.Hart.Shape
import Riscv32.Proofs.Memory.Coherence

/-!
# What instructions cannot see

By induction on the shape of an instruction: no instruction of the standard sets can tell two
harts apart that differ only in what their decode caches hold, in the marks of the registers read
and written last, and in whether the host wants a report. The host must not see the difference
either when it answers a system call.

## Main definitions

* `RegisterFile.Alike`, `Hart.Alike` — equal but for coherent decode caches and diagnostics.
* `SyscallHandler.Unaware` — a host that does not see decode caches.
* `Hart.Indistinct` — harts that are alike, with such a host.

## Main statements

* `Exec.Acts.blind`, the instructions.
* `DispatchTable.blind_of_handler?`, whatever a table finds.
-/
namespace Riscv32

/-- Equal registers, but for the marks of the ones read and written last. -/
def RegisterFile.Alike (f g : RegisterFile) : Prop :=
  ∃ lastRead lastWritten, g = { f with lastRead, lastWritten }

/-- Equal harts, but for decode caches, which are coherent, the marks of registers and the wish
for reports. -/
def Hart.Alike (h k : Hart) : Prop :=
  ∃ regs memory traced, k = { h with regs, memory, traced } ∧
    h.regs.Alike regs ∧ h.memory.Alike memory

/-- A host that gives the same answers whatever decode caches hold. -/
def SyscallHandler.Unaware (f : SyscallHandler) : Prop :=
  ∀ call m n, m.Alike n → (f call m).1 = (f call n).1 ∧ (f call m).2.Alike (f call n).2

theorem SyscallHandler.unaware_basic : basic.Unaware := fun _ _ _ h => ⟨rfl, h⟩

/-- Harts that are alike and whose host cannot tell them apart. -/
structure Hart.Indistinct (h k : Hart) : Prop where
  alike : h.Alike k
  unaware : h.syscallHandler.Unaware

namespace Exec

variable {α : Type} {can : Powers} {x : Exec α}

theorem blind_ofExcept {ε : Type} (wrap : ε → ExecError) (r : Except ε α) :
    Blind Hart.Indistinct (ofExcept wrap r) := by
  cases r with
  | ok a => exact blind_pure a
  | error e => exact blind_throw (wrap e)

/-- An access to memory is blind if it does not see decode caches. -/
theorem blind_access {action : Access α} (haction : Blind AddressSpace.Alike action) :
    Blind Hart.Indistinct (access action) := by
  rintro h _ ⟨⟨regs, memory, traced, rfl, hr, hm⟩, hhost⟩
  have haccess := haction h.memory memory hm
  unfold access
  dsimp only
  generalize action h.memory = r, action memory = r' at haccess
  cases haccess <;> dsimp only
  case ok a m n hm' => exact .ok a ⟨⟨_, _, _, rfl, hr, hm'⟩, hhost⟩
  case error e m n hm' => exact .error _ ⟨⟨_, _, _, rfl, hr, hm'⟩, hhost⟩

theorem Checks.blind (hx : Checks can x) : Blind Hart.Indistinct x := by
  induction hx with
  | pure a => exact blind_pure a
  | throw e _ _ _ => exact blind_throw e
  | bind _ _ ihx ihf => exact ihx.bind ihf
  | readX i =>
    rintro h _ ⟨⟨regs, memory, traced, rfl, ⟨r, w, rfl⟩, hm⟩, hhost⟩
    exact .ok (h.regs.peek i) ⟨⟨_, _, _, rfl, ⟨_, _, rfl⟩, hm⟩, hhost⟩
  | readF p i =>
    refine blind_of_get ?_ fun h => blind_pure _
    rintro h _ ⟨⟨regs, memory, traced, rfl, ⟨r, w, rfl⟩, hm⟩, -⟩
    rfl
  | readPc =>
    refine blind_of_get ?_ fun h => blind_pure _
    rintro h _ ⟨⟨regs, memory, traced, rfl, -⟩, -⟩
    rfl
  | readInstructionPc =>
    refine blind_of_get ?_ fun h => blind_pure _
    rintro h _ ⟨⟨regs, memory, traced, rfl, -⟩, -⟩
    rfl
  | readCsr _ addr =>
    refine blind_of_get ?_ fun h => blind_ofExcept _ _
    rintro h _ ⟨⟨regs, memory, traced, rfl, -⟩, -⟩
    rfl
  | load addr count => exact blind_access (AddressSpace.blind_readNat addr count)
  | immediate inst index =>
    refine blind_of_get ?_ fun h => blind_ofExcept _ _
    rintro h _ ⟨⟨regs, _, traced, rfl, -, ⟨sections, rfl, -⟩⟩, -⟩
    rfl
  | target inst index =>
    refine blind_of_get ?_ fun h => blind_ofExcept _ _
    rintro h _ ⟨⟨regs, _, traced, rfl, -, ⟨sections, rfl, -⟩⟩, -⟩
    rfl
  | rounding inst index =>
    refine (blind_ofExcept _ _).bind fun field => blind_of_get ?_ fun h => ?_
    · rintro h _ ⟨⟨regs, memory, traced, rfl, -⟩, -⟩
      rfl
    · split
      · exact blind_pure _
      · exact blind_throw _
  | needs p inst =>
    refine blind_of_get ?_ fun h => ?_
    · rintro h _ ⟨⟨_, memory, traced, rfl, ⟨r, w, rfl⟩, -⟩, -⟩
      rfl
    · split
      · exact blind_throw _
      · exact blind_pure _
  | hostNaN p =>
    refine blind_of_get ?_ fun h => blind_pure _
    rintro h _ ⟨⟨regs, memory, traced, rfl, -⟩, -⟩
    rfl
  | takeReservation _ addr =>
    rintro h _ ⟨⟨regs, memory, traced, rfl, hr, hm⟩, hhost⟩
    exact .ok (h.reservation == some addr) ⟨⟨_, _, _, rfl, hr, hm⟩, hhost⟩
  | environmentBreak _ inst =>
    refine blind_of_get ?_ fun h => ?_
    · rintro h _ ⟨⟨regs, memory, traced, rfl, -⟩, -⟩
      rfl
    · split
      · exact blind_throw _
      · exact blind_pure _

theorem Writes.blind (hx : Writes can x) : Blind Hart.Indistinct x := by
  induction hx with
  | pure a => exact blind_pure a
  | bind _ _ ihx ihf => exact ihx.bind ihf
  | writeX i v =>
    refine blind_modify ?_
    rintro h _ ⟨⟨_, memory, traced, rfl, ⟨r, w, rfl⟩, hm⟩, hhost⟩
    refine ⟨⟨_, _, _, rfl, ?_, hm⟩, hhost⟩
    unfold RegisterFile.write
    split
    · exact ⟨_, _, rfl⟩
    · exact ⟨_, _, rfl⟩
  | writeF p i x =>
    refine blind_modify ?_
    rintro h _ ⟨⟨_, memory, traced, rfl, ⟨r, w, rfl⟩, hm⟩, hhost⟩
    exact ⟨⟨_, _, _, rfl, ⟨_, _, rfl⟩, hm⟩, hhost⟩
  | accrue flags =>
    refine blind_modify ?_
    rintro h _ ⟨⟨regs, memory, traced, rfl, hr, hm⟩, hhost⟩
    unfold Hart.accrue
    split
    · exact ⟨⟨_, _, _, rfl, hr, hm⟩, hhost⟩
    · exact ⟨⟨_, _, _, rfl, hr, hm⟩, hhost⟩
  | reserve _ addr =>
    refine blind_modify ?_
    rintro h _ ⟨⟨regs, memory, traced, rfl, hr, hm⟩, hhost⟩
    exact ⟨⟨_, _, _, rfl, hr, hm⟩, hhost⟩
  | waitForInterrupt _ inst =>
    refine blind_modify ?_
    rintro h _ ⟨⟨regs, memory, traced, rfl, hr, hm⟩, hhost⟩
    exact ⟨⟨_, _, _, rfl, hr, hm⟩, hhost⟩

theorem blind_jump (target : Word) : Blind Hart.Indistinct (jump target) := by
  refine blind_get_bind ?_
  rintro h _ ⟨⟨regs, memory, traced, rfl, hr, hm⟩, hhost⟩
  unfold Hart.jump
  by_cases ha : target.isAligned
  · rw [if_pos ha, if_pos ha]
    exact .ok () ⟨⟨_, _, _, rfl, hr, hm⟩, hhost⟩
  · rw [if_neg ha, if_neg ha]
    exact .error _ ⟨⟨_, _, _, rfl, hr, hm⟩, hhost⟩

theorem blind_writeCsr (addr v : Word) : Blind Hart.Indistinct (writeCsr addr v) := by
  refine blind_get_bind ?_
  rintro h _ ⟨⟨regs, memory, traced, rfl, hr, hm⟩, hhost⟩
  unfold Hart.writeCsr
  dsimp only
  cases Csr.checkAccess addr h.privilege true with
  | error e => exact .error _ ⟨⟨_, _, _, rfl, hr, hm⟩, hhost⟩
  | ok _ =>
    cases h.csrs.set addr v with
    | mk effect csrs => cases effect <;> exact .ok () ⟨⟨_, _, _, rfl, hr, hm⟩, hhost⟩

/-- What a system call does with the answer of the host. -/
theorem sameResult_answer {answer answer' : Except SyscallError SyscallOutcome}
    (heq : answer = answer') {h k : Hart} (hk : h.Indistinct k) :
    SameResult Hart.Indistinct
      ((do match ← ofExcept .syscall answer with
          | .returned v => writeX Register.argument0 v
          | .exited code => modify fun h => h.halt code : Exec Unit) h)
      ((do match ← ofExcept .syscall answer' with
          | .returned v => writeX Register.argument0 v
          | .exited code => modify fun h => h.halt code : Exec Unit) k) := by
  subst heq
  refine (blind_ofExcept .syscall answer).bind (fun outcome => ?_) h k hk
  cases outcome with
  | returned v => exact (Writes.writeX _ v : Writes .none _).blind
  | exited code =>
    refine blind_modify ?_
    rintro h _ ⟨⟨regs, memory, traced, rfl, hr, hm⟩, hhost⟩
    exact ⟨⟨_, _, _, rfl, hr, hm⟩, hhost⟩

/-- A system call is blind as the host gives the same answer and leaves memory that is alike. -/
theorem blind_systemCall : Blind Hart.Indistinct systemCall := by
  have hread : ∀ i, Blind Hart.Indistinct (readX i) :=
    fun i => Checks.blind (.readX i : Checks .none (readX i))
  refine (hread _).bind fun id => (hread _).bind fun a => (hread _).bind fun b =>
    (hread _).bind fun c => blind_get_bind ?_
  rintro h _ ⟨⟨regs, memory, traced, rfl, hr, hm⟩, hhost⟩
  obtain ⟨hanswer, hm'⟩ := hhost ⟨id, a, b, c⟩ h.memory memory hm
  exact sameResult_answer hanswer ⟨⟨_, _, _, rfl, hr, hm'⟩, hhost⟩

theorem blind_environmentCall (inst : Instruction) :
    Blind Hart.Indistinct (environmentCall inst) := by
  refine blind_of_get ?_ fun h => ?_
  · rintro h _ ⟨⟨regs, memory, traced, rfl, -⟩, -⟩
    rfl
  · split
    · exact blind_systemCall
    · split <;> exact blind_throw _

theorem blind_machineReturn (inst : Instruction) :
    Blind Hart.Indistinct (machineReturn inst) := by
  refine blind_get_bind ?_
  rintro h _ ⟨⟨regs, memory, traced, rfl, hr, hm⟩, hhost⟩
  dsimp only
  split
  · exact .ok () ⟨⟨_, _, _, rfl, hr, hm⟩, hhost⟩
  · exact .error _ ⟨⟨_, _, _, rfl, hr, hm⟩, hhost⟩

/-- No instruction sees decode caches and diagnostics. -/
theorem Acts.blind (hx : Acts can x) : Blind Hart.Indistinct x := by
  induction hx with
  | checks hx => exact hx.blind
  | writes hx => exact hx.blind
  | bind hx _ ihf => exact hx.blind.bind ihf
  | andThen _ hf ihx => exact ihx.bind fun a => (hf a).blind
  | store addr count v => exact blind_access (AddressSpace.blind_writeNat addr count v)
  | jump target => exact blind_jump target
  | writeCsr _ addr v => exact blind_writeCsr addr v
  | environmentCall _ inst => exact blind_environmentCall inst
  | machineReturn _ inst => exact blind_machineReturn inst

end Exec

/-- An instruction set whose instructions do not see decode caches and diagnostics. -/
def InstructionSet.Unaware (s : InstructionSet) : Prop :=
  ∀ r ∈ s.handlers, ∀ inst, Blind Hart.Indistinct (r.2 inst)

theorem InstructionSet.unaware_of_mem_standard {s : InstructionSet} (h : s ∈ standard) :
    s.Unaware := fun _ hr inst => (Exec.acts_of_mem_standard h hr inst).blind

/-- Whatever a table finds is blind if its sets are. -/
theorem DispatchTable.blind_of_handler? {sets : List InstructionSet} {t : DispatchTable}
    {mnemonic : String} {handler : Handler}
    (hsets : ∀ s ∈ sets, s ∈ InstructionSet.standard ∨ s.Unaware) (ht : build sets = .ok t)
    (h : t.handler? mnemonic = some handler) (inst : Instruction) :
    Blind Hart.Indistinct (handler inst) := by
  obtain ⟨s, hs, r, hr, -, rfl⟩ := exists_set_of_handler? ht h
  rcases hsets s hs with hstandard | hunaware
  · exact InstructionSet.unaware_of_mem_standard hstandard r hr inst
  · exact hunaware r hr inst

end Riscv32
