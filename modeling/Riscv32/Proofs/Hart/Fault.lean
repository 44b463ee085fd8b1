import Riscv32.Proofs.Hart.Exception
import Riscv32.Proofs.Memory.Flat
import Riscv32.Proofs.Memory.Window

/-!
# Failures without partial effect

An instruction that fails has found its failure among its checks or in its one change, so all it
leaves behind is what checks leave: the mark of a register that was read, windows that were mapped,
a reservation given up by the one instruction that takes reservations back, and the record of a
system call. Mapping a window is no change of memory as a program sees it: what was mapped is
answered for by the same section as before, and what becomes mapped holds zero. This needs no order
among the sections, so it holds of every space.

The step then makes a trap of the failure, or halts the hart with a report.

## Main definitions

* `AddressSpace.OnlyMaps m m'` — `m'` is `m` with further windows of zeros.
* `Hart.Intact drops h h'` — `h'` is `h` but for what checks leave behind.

## Main statements

* `Exec.Acts.intact`, an instruction that fails.
* `Hart.intact_of_error`, the instruction and the step that it fails in.
-/
namespace Riscv32

/-! ## Windows -/

namespace AddressSpace

variable {m m' m₁ m₂ : AddressSpace} {addr : Word} {s : Section}

/-- The space with nothing but further windows: all sections are still there, the same one answers
for what was mapped, and what becomes mapped, in a space that maps on demand, holds zero. -/
structure OnlyMaps (m m' : AddressSpace) : Prop where
  frame : ∃ sections, m' = { m with sections } ∧ m.sections.Sublist sections
  kept : ∀ a s, m.sectionFor? a = some s → m'.sectionFor? a = some s
  fresh : ∀ a s, m.sectionFor? a = none → m'.sectionFor? a = some s →
    m.lazyMapping = true ∧ s.byteAt? a = some 0

theorem OnlyMaps.refl (m : AddressSpace) : OnlyMaps m m where
  frame := ⟨_, rfl, .refl _⟩
  kept _ _ h := h
  fresh a s h h' := by
    rw [h] at h'
    cases h'

theorem OnlyMaps.trans (h : OnlyMaps m m₁) (h' : OnlyMaps m₁ m₂) : OnlyMaps m m₂ := by
  have hlazy : m₁.lazyMapping = m.lazyMapping := by
    obtain ⟨sections, rfl, -⟩ := h.frame
    rfl
  refine ⟨?_, fun a s hs => h'.kept a s (h.kept a s hs), ?_⟩
  · obtain ⟨sections, rfl, hsub⟩ := h.frame
    obtain ⟨sections', rfl, hsub'⟩ := h'.frame
    exact ⟨sections', rfl, hsub.trans hsub'⟩
  · intro a s hnone hs
    cases hmid : m₁.sectionFor? a with
    | none =>
      rw [← hlazy]
      exact h'.fresh a s hmid hs
    | some t =>
      have ht := h'.kept a t hmid
      rw [hs] at ht
      cases ht
      exact h.fresh a s hnone hmid

theorem Serves.onlyMaps (h : Serves addr m m') : OnlyMaps m m' := by
  cases h with
  | found => exact .refl m
  | mapped hs hlazy haddr =>
    refine ⟨⟨_, rfl, ?_⟩, ?_, ?_⟩
    · rw [← m.below_append_above addr]
      exact .append (.refl _) (.cons _ (.refl _))
    · intro a s ha
      rcases sectionFor?_mapWindow_eq hs haddr a with hsame | ⟨hnone, -⟩
      · rw [hsame, ha]
      · rw [hnone] at ha
        cases ha
    · intro a s hnone ha
      rcases sectionFor?_mapWindow_eq hs haddr a with hsame | ⟨-, hwindow, hcontains⟩
      · rw [hsame, hnone] at ha
        cases ha
      · rw [hwindow] at ha
        cases ha
        exact ⟨hlazy, byteAt?_window hcontains⟩

/-- No byte changes. -/
theorem OnlyMaps.byteAt? (h : OnlyMaps m m') {a : Word} (ha : m.Mapped a) :
    m'.byteAt? a = m.byteAt? a := by
  obtain ⟨s, hs⟩ := ha
  rw [byteAt?_of_sectionFor? hs, byteAt?_of_sectionFor? (h.kept a s hs)]

end AddressSpace

/-! ## Instructions -/

namespace Hart

/-- The same hart, but for the mark of the register read last, further windows, the record of system
calls and, if `drops`, a reservation given up. -/
def Intact (drops : Prop) (h h' : Hart) : Prop :=
  ∃ lastRead memory reservation syscalls,
    h' = { h with regs := { h.regs with lastRead }, memory, reservation, syscalls } ∧
      h.memory.OnlyMaps memory ∧ (reservation = h.reservation ∨ drops ∧ reservation = none)

variable {drops : Prop} {h h' : Hart}

theorem Intact.refl (h : Hart) : Intact drops h h :=
  ⟨_, _, _, _, rfl, .refl _, .inl rfl⟩

theorem Intact.trans {k : Hart} (hk : Intact drops h k) (hk' : Intact drops k h') :
    Intact drops h h' := by
  obtain ⟨lastRead, memory, reservation, syscalls, rfl, hm, hr⟩ := hk
  obtain ⟨lastRead', memory', reservation', syscalls', rfl, hm', hr'⟩ := hk'
  refine ⟨lastRead', memory', reservation', syscalls', rfl, hm.trans hm', ?_⟩
  rcases hr' with rfl | hdropped
  · exact hr
  · exact .inr hdropped

end Hart

namespace Exec

variable {α : Type} {can : Powers} {drops : Prop} {x : Exec α} {h h' : Hart} {e : ExecError}

/-- What checks leave behind, on a hart whose host knows only the call that ends a program. -/
theorem unseen_intact :
    Unseen drops fun h h' => h.syscallHandler = .basic → Hart.Intact drops h h' where
  refl h _ := .refl h
  trans {h₁ h₂ h₃} h₁₂ h₂₃ hbasic := by
    have hleft := h₁₂ hbasic
    have hbasic' : h₂.syscallHandler = .basic := by
      obtain ⟨_, _, _, _, rfl, -⟩ := hleft
      exact hbasic
    exact hleft.trans (h₂₃ hbasic')
  markRead h i _ := ⟨_, _, _, _, rfl, .refl _, .inl rfl⟩
  search h addr m hserves _ := ⟨_, _, _, _, rfl, hserves.onlyMaps, .inl rfl⟩
  reservation hdrops h _ := ⟨_, _, _, _, rfl, .refl _, .inr ⟨hdrops, rfl⟩⟩
  syscall h call hbasic := by
    have hmemory : (h.syscallHandler call h.memory).2 = h.memory := by
      rw [hbasic]
      rfl
    rw [hmemory]
    exact ⟨_, _, _, _, rfl, .refl _, .inl rfl⟩

/-- An instruction that fails leaves the hart intact. -/
theorem Acts.intact (hx : Acts can x) (hbasic : h.syscallHandler = .basic)
    (he : x h = .error e h') : h.Intact can.drops h' :=
  hx.keepsOnError unseen_intact h e h' he hbasic

end Exec

/-! ## Steps -/

namespace Hart

variable {table : DispatchTable} {sets : List InstructionSet} {h b h' : Hart} {inst : Instruction}
  {memory : AddressSpace} {handler : Handler} {e : ExecError}

/-- The hart that executes what the hart `b` fetched. -/
def executing (b : Hart) (memory : AddressSpace) : Hart :=
  { b with cycle := b.cycle + 1, instructionPc := b.pc, memory, pc := b.pc + 4 }

/-- A fetched instruction that succeeds is counted. -/
theorem fetchExecute_of_ok (hfetch : AddressSpace.fetch b.pc b.memory = .ok inst memory)
    (hfind : table.handler? inst.mnemonic = some handler)
    (hok : handler inst (b.executing memory) = .ok () h') :
    b.fetchExecute table = .ok () { h' with instret := h'.instret + 1 } := by
  rw [executing] at hok
  simp only [fetchExecute, hfetch, execute, hfind, hok]

/-- A step whose instruction fails has the consequence of that failure. -/
theorem step_of_error (hb : h.fetching? = some b)
    (hfetch : AddressSpace.fetch b.pc b.memory = .ok inst memory)
    (hfind : table.handler? inst.mnemonic = some handler)
    (he : handler inst (b.executing memory) = .error e h') :
    h.step table = h'.fail (some inst) e := by
  rw [executing] at he
  rw [step_of_fetching? hb]
  simp only [fetchExecute, hfetch, execute, hfind, he]

/-- A failure without a trap, or on an unprivileged hart, halts the hart with a report. -/
theorem fail_of_not_trap {inst : Instruction} (hunimplemented : ∀ m, e ≠ .unimplemented m)
    (hdebugger : e ≠ .debuggerRequested)
    (hnot : h.privileged = false ∨ e.trap? (inst.encoding?.getD 0) = none) :
    h.fail (some inst) e = .error (.fault ⟨h.instructionPc, inst.text, e⟩) (h.halt 1) := by
  cases e with
  | unimplemented m => exact absurd rfl (hunimplemented m)
  | debuggerRequested => exact absurd rfl hdebugger
  | _ =>
    rcases hnot with hp | ht
    · simp only [fail, hp]
      rfl
    · cases hp : h.privileged <;> simp only [fail, Option.bind_some, ht, hp] <;> rfl

/-- An instruction that fails leaves everything as it was: registers, control registers, program
counter, privilege, timer, pending traps, all memory that was mapped. Only windows of zeros may have
been mapped, and only a conditional store may have given up the reservation. The step it fails in
goes back to the instruction with exactly the one trap queued, if the hart is privileged and the
failure has a trap; any other failure halts the hart with a report that carries the address of the
instruction, unless a debugger is asked for or the instruction has no behaviour. -/
theorem intact_of_error (hsets : ∀ s ∈ sets, s ∈ InstructionSet.standard)
    (hbuild : DispatchTable.build sets = .ok table) :
    (∀ mnemonic handler (inst : Instruction) (h h' : Hart) (e : ExecError),
      table.handler? mnemonic = some handler → h.syscallHandler = .basic →
      handler inst h = .error e h' → h.Intact (mnemonic = "sc.w") h') ∧
    ∀ (h b h' : Hart) (inst : Instruction) memory handler (e : ExecError),
      h.fetching? = some b → AddressSpace.fetch b.pc b.memory = .ok inst memory →
      table.handler? inst.mnemonic = some handler →
      handler inst (b.executing memory) = .error e h' →
        (∀ t, h.privileged = true → e.trap? (inst.encoding?.getD 0) = some t →
          h.step table = .ok () { h' with pc := b.pc, traps := b.traps.push (.machine t) }) ∧
        (h.privileged = false ∨ e.trap? (inst.encoding?.getD 0) = none →
          (∀ m, e ≠ .unimplemented m) → e ≠ .debuggerRequested →
          h.step table = .error (.fault ⟨b.pc, inst.text, e⟩) (h'.halt 1)) := by
  refine ⟨?_, ?_⟩
  · intro mnemonic handler inst h h' e hfind hbasic he
    exact (DispatchTable.acts_of_handler? hsets hbuild hfind inst).intact hbasic he
  · intro h b h' inst memory handler e hb hfetch hfind he
    have hstep := step_of_error hb hfetch hfind he
    obtain ⟨hpriv, hpc, htraps, -⟩ :=
      frame_of_error (DispatchTable.acts_of_handler? hsets hbuild hfind inst) he
    have hpriv' : h'.privileged = h.privileged := hpriv.trans (frame_of_fetching? hb).1
    have hpc' : h'.instructionPc = b.pc := hpc
    have htraps' : h'.traps = b.traps := htraps
    refine ⟨?_, ?_⟩
    · intro t hp ht
      have ht' : e.trap? (((some inst).bind (·.encoding?)).getD 0) = some t := ht
      rw [hstep, fail_of_trap? (hpriv'.trans hp) ht', raise, hpc', htraps']
    · intro hnot hunimplemented hdebugger
      rw [← hpriv'] at hnot
      rw [hstep, fail_of_not_trap hunimplemented hdebugger hnot, hpc']

/-! ## A read that succeeds and a write that fails -/

/-- The table of the atomic instructions. -/
def atomicTable : DispatchTable := (DispatchTable.build [.atomic]).toOption.getD {}

theorem build_atomic : DispatchTable.build [.atomic] = .ok atomicTable :=
  DispatchTable.build_eq_ok (by decide +kernel)

/-- An addition to a word that can only be read. -/
def addToConstant : Instruction := .structured "amoadd.w" ["t0", "t1", "t2"]

/-- A hart at that instruction. -/
def atConstant (privileged : Bool) : Hart :=
  { regs := (({} : RegisterFile).write 5 1).write 6 0x1000
    memory :=
      { sections :=
        [.ofInstructions ".text" 0 .code [addToConstant],
          .ofBytes ".rodata" 0x1000 .constants [2, 3, 5, 7]] }
    privileged }

/-- The old word was read, but nothing of it is left behind when the new one cannot be written. -/
theorem intact_of_addToConstant :
    (∃ h', Exec.readModifyWrite (· + ·) addToConstant
        ((atConstant true).executing (atConstant true).memory)
          = .error (.memory (.readOnly 0x1000 4 ".rodata")) h' ∧
      ((atConstant true).executing (atConstant true).memory).Intact ("amoadd.w" = "sc.w") h' ∧
      (atConstant true).step atomicTable = .ok () { h' with
        pc := 0, traps := ({} : TrapQueue).push (.machine (.storeAccessFault 0x1000)) }) ∧
    ∃ h' : Hart, (atConstant false).step atomicTable
      = .error (.fault ⟨0, "amoadd.w t0, t1, t2", .memory (.readOnly 0x1000 4 ".rodata")⟩)
        (h'.halt 1) := by
  have hsets : ∀ s ∈ [InstructionSet.atomic], s ∈ InstructionSet.standard := by
    simp [InstructionSet.standard]
  obtain ⟨hintact, hstep⟩ := intact_of_error hsets build_atomic
  have hb : ∀ p, (atConstant p).fetching? = some (atConstant p) := by
    intro p
    cases p <;> rfl
  have hfetch : ∀ p, AddressSpace.fetch (atConstant p).pc (atConstant p).memory
      = .ok addToConstant (atConstant p).memory := by
    intro p
    cases p <;> rfl
  have hfind : atomicTable.handler? addToConstant.mnemonic
      = some (Exec.readModifyWrite (· + ·)) := rfl
  have hfails : ∀ p, ∃ h', Exec.readModifyWrite (· + ·) addToConstant
      ((atConstant p).executing (atConstant p).memory)
        = .error (.memory (.readOnly 0x1000 4 ".rodata")) h' := by
    intro p
    cases p <;> exact ⟨_, rfl⟩
  obtain ⟨h', he⟩ := hfails true
  obtain ⟨k', hk⟩ := hfails false
  refine ⟨⟨h', he, ?_, ?_⟩, k', ?_⟩
  · exact hintact _ _ _ _ _ _ hfind rfl he
  · exact (hstep _ _ _ _ _ _ _ (hb true) (hfetch true) hfind he).1 _ rfl rfl
  · exact (hstep _ _ _ _ _ _ _ (hb false) (hfetch false) hfind hk).2 (.inl rfl) (by simp) (by simp)

end Hart
end Riscv32
