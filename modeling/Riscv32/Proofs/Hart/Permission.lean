import Mathlib.Data.List.Forall2
import Riscv32.Proofs.Hart.Confinement
import Riscv32.Proofs.Hart.Fault
import Riscv32.Proofs.Hart.Lockstep

/-!
# Permissions hold over whole runs

A section can be changed by a write alone, and a write checks the permission first. A fetch changes
nothing but what the section remembers of it, and a search adds windows. So along a run no section
is lost, its name, its place and its permissions stay, and what may not be written stays as it was.
What is executed lies, as a whole and aligned, in a section that was executable at the start: the
windows that are added are data.

## Main definitions

* `Section.Keeps s t` — `t` is `s` but for what a write may change and what a fetch remembers.
* `AddressSpace.Guards m m'` — all sections of `m` are kept in `m'`, and the others are windows.

## Main statements

* `AddressSpace.guards_write`, `AddressSpace.guards_fetch`, the accesses.
* `Exec.Acts.guards`, an instruction.
* `Hart.permissions_hold`, any number of steps.
-/
namespace Riscv32

/-! ## Sections -/

/-- What a section holds, without what it remembers of it. -/
def SectionContents.data : SectionContents → ByteStore ⊕ Array Instruction
  | .bytes store _ => .inl store
  | .instructions list => .inr list

namespace Section

variable {s t u : Section} {addr : Word} {data : List Byte} {inst : Instruction}

/-- Nothing may change what the section holds. -/
def Constant (s : Section) : Prop := s.permissions.readOnly = true ∨ s.holdsInstructions = true

/-- `t` is `s` but for what a write may change and what a fetch remembers. -/
structure Keeps (s t : Section) : Prop where
  name : t.name = s.name
  owner : t.owner = s.owner
  base : t.base = s.base
  permissions : t.permissions = s.permissions
  size : t.size = s.size
  holdsInstructions : t.holdsInstructions = s.holdsInstructions
  data : s.Constant → t.contents.data = s.contents.data

instance : Std.Refl Keeps := ⟨fun _ => ⟨rfl, rfl, rfl, rfl, rfl, rfl, fun _ => rfl⟩⟩

theorem Keeps.constant (h : s.Keeps t) (hs : s.Constant) : t.Constant := by
  rw [Constant, h.permissions, h.holdsInstructions]
  exact hs

instance : IsTrans Section Keeps where
  trans _ _ _ h h' :=
    { name := h'.name.trans h.name
      owner := h'.owner.trans h.owner
      base := h'.base.trans h.base
      permissions := h'.permissions.trans h.permissions
      size := h'.size.trans h.size
      holdsInstructions := h'.holdsInstructions.trans h.holdsInstructions
      data := fun hs => (h'.data (h.constant hs)).trans (h.data hs) }

/-- A write that succeeds found a section that may be written. -/
theorem readOnly_of_write (h : s.write addr data = .ok t) : s.permissions.readOnly = false := by
  unfold write at h
  split at h
  case isTrue => cases h
  case isFalse hwritable => simpa using hwritable

theorem keeps_of_write (h : s.write addr data = .ok t) : s.Keeps t := by
  have hwritable := readOnly_of_write h
  have hsize := (size_eq_of_write h).2
  obtain ⟨-, -, store, decoded, decoded', hcontents, rfl⟩ := write_eq_ok h
  have hbytes : s.holdsInstructions = false := by rw [holdsInstructions, hcontents]
  refine ⟨rfl, rfl, rfl, rfl, hsize, hbytes.symm, fun hs => ?_⟩
  rw [Constant, hwritable, hbytes] at hs
  simp at hs

theorem keeps_of_fetch (h : s.fetch addr = .ok (inst, t)) : s.Keeps t := by
  have hsize := (size_eq_of_fetch h).2
  rcases fetch_eq_ok h with rfl | ⟨store, decoded, decoded', hcontents, rfl⟩
  · exact refl _
  · refine ⟨rfl, rfl, rfl, rfl, hsize, ?_, fun _ => ?_⟩
    · rw [holdsInstructions, holdsInstructions, hcontents]
    · rw [hcontents]
      rfl

/-- A fetch that succeeds is from an executable section, aligned to its base and as a whole within
it. -/
theorem executable_of_fetch (h : s.fetch addr = .ok (inst, t)) :
    s.permissions.executable = true ∧ s.base.toNat ≤ addr.toNat ∧
      addr.toNat + 4 ≤ s.endAddress ∧ 4 ∣ addr.toNat - s.base.toNat := by
  unfold fetch at h
  split at h
  case isTrue => cases h
  case isFalse hexecutable =>
    split at h
    case isTrue => cases h
    case isFalse haligned =>
      split at h
      case h_1 => cases h
      case h_2 offset hoffset =>
        obtain ⟨hbase, hend, -⟩ := offset_eq_ok hoffset
        refine ⟨by simpa using hexecutable, hbase, hend, ?_⟩
        have hmod : (addr - s.base).toNat % 4 = 0 := by
          rw [← Word.isAligned_iff]
          simpa using haligned
        rw [BitVec.toNat_sub_of_le (BitVec.le_def.2 hbase)] at hmod
        exact Nat.dvd_of_mod_eq_zero hmod

/-- The section is a window that was mapped on demand. -/
structure IsWindow (s : Section) : Prop where
  name : s.name = AddressSpace.windowName
  owner : s.owner = AddressSpace.systemOwner
  permissions : s.permissions = .data

theorem IsWindow.of_keeps (hs : s.IsWindow) (h : s.Keeps t) : t.IsWindow :=
  ⟨h.name.trans hs.name, h.owner.trans hs.owner, h.permissions.trans hs.permissions⟩

end Section

/-! ## Address spaces -/

namespace AddressSpace

variable {m m' m₁ m₂ : AddressSpace} {addr : Word} {data : List Byte}

/-- All sections are kept, in their order, and the others are windows. -/
structure Guards (m m' : AddressSpace) : Prop where
  kept : List.SublistForall₂ Section.Keeps m.sections m'.sections
  fresh : ∀ t ∈ m'.sections, (∃ s ∈ m.sections, s.Keeps t) ∨ t.IsWindow

theorem Guards.refl (m : AddressSpace) : Guards m m :=
  ⟨Std.Refl.refl _, fun t ht => .inl ⟨t, ht, Std.Refl.refl t⟩⟩

theorem Guards.trans (h : Guards m m₁) (h' : Guards m₁ m₂) : Guards m m₂ := by
  refine ⟨IsTrans.trans _ _ _ h.kept h'.kept, fun t ht => ?_⟩
  rcases h'.fresh t ht with ⟨s, hs, hst⟩ | hwindow
  · rcases h.fresh s hs with ⟨r, hr, hrs⟩ | hwindow
    · exact .inl ⟨r, hr, IsTrans.trans _ _ _ hrs hst⟩
    · exact .inr (hwindow.of_keeps hst)
  · exact .inr hwindow

theorem Serves.guards (h : Serves addr m m') : Guards m m' := by
  cases h with
  | found => exact .refl m
  | mapped hs hlazy haddr =>
    obtain ⟨sections, heq, hsub⟩ := (Serves.mapped hs hlazy haddr).onlyMaps.frame
    refine ⟨?_, fun t ht => ?_⟩
    · rw [heq]
      exact hsub.sublistForall₂
    · rw [mapWindow, List.mem_append, List.mem_cons] at ht
      rcases ht with hbelow | rfl | habove
      · exact .inl ⟨t, m.below_append_above addr ▸ List.mem_append_left _ hbelow, Std.Refl.refl t⟩
      · exact .inr ⟨rfl, rfl, rfl⟩
      · exact .inl ⟨t, m.below_append_above addr ▸ List.mem_append_right _ habove, Std.Refl.refl t⟩

/-- A section that is replaced in its place by one that keeps it. -/
theorem guards_replace {front back : List Section} {s t : Section}
    (hsections : m.sections = front ++ s :: back) (hst : s.Keeps t) :
    Guards m { m with sections := front ++ t :: back } := by
  refine ⟨?_, fun u hu => ?_⟩
  · have hall : List.Forall₂ Section.Keeps (front ++ s :: back) (front ++ t :: back) :=
      List.rel_append (List.forall₂_refl front) (.cons hst (List.forall₂_refl back))
    rw [hsections]
    exact List.sublistForall₂_iff.2 ⟨_, hall, .refl _⟩
  · have hmem : u = t ∨ u ∈ m.sections := by
      rw [hsections]
      simp only [List.mem_append, List.mem_cons] at hu ⊢
      tauto
    rcases hmem with rfl | hu
    · exact .inl ⟨s, by simp [hsections], hst⟩
    · exact .inl ⟨u, hu, Std.Refl.refl u⟩

theorem guards_write (addr : Word) (data : List Byte) (m : AddressSpace) :
    Guards m (stateAfter (AddressSpace.write addr data) m) := by
  unfold stateAfter
  cases hwrite : AddressSpace.write addr data m with
  | error e m' => exact (write_eq_error hwrite).guards
  | ok _ m' =>
    obtain ⟨m₁, front, s, t, back, hserves, hsections, -, hst, rfl⟩ := write_eq_ok hwrite
    exact hserves.guards.trans (guards_replace hsections (Section.keeps_of_write hst))

theorem guards_fetch (addr : Word) (m : AddressSpace) :
    Guards m (stateAfter (AddressSpace.fetch addr) m) := by
  unfold stateAfter
  cases hfetch : AddressSpace.fetch addr m with
  | error e m' => exact (fetch_eq_error hfetch).guards
  | ok inst m' =>
    obtain ⟨m₁, front, s, t, back, hserves, hsections, -, hst, rfl⟩ := fetch_eq_ok hfetch
    exact hserves.guards.trans (guards_replace hsections (Section.keeps_of_fetch hst))

end AddressSpace

/-! ## Instructions -/

namespace Hart

variable {h h' : Hart}

/-- If the host knows only the call that ends a program, it stays so and the memory is guarded. -/
def Guards (h h' : Hart) : Prop :=
  h.syscallHandler = .basic → h'.syscallHandler = .basic ∧ h.memory.Guards h'.memory

theorem Guards.of_eq (hhost : h'.syscallHandler = h.syscallHandler)
    (hmemory : h'.memory = h.memory) : Guards h h' := by
  intro hbasic
  rw [hhost, hmemory]
  exact ⟨hbasic, .refl _⟩

theorem Guards.trans {k : Hart} (hk : Guards h k) (hk' : Guards k h') : Guards h h' := by
  intro hbasic
  obtain ⟨hbasic', hleft⟩ := hk hbasic
  obtain ⟨hbasic'', hright⟩ := hk' hbasic'
  exact ⟨hbasic'', hleft.trans hright⟩

end Hart

namespace Exec

variable {α : Type} {can : Powers} {drops : Prop} {x : Exec α}

theorem respects_guards : Respects can Hart.Guards where
  refl _ := .of_eq rfl rfl
  trans := .trans
  markRead _ _ := .of_eq rfl rfl
  search _ _ _ hserves hbasic := ⟨hbasic, hserves.guards⟩
  reservation _ _ := .of_eq rfl rfl
  -- the one call that the host knows leaves memory alone
  syscall h call hbasic := by
    have hmemory : (h.syscallHandler call h.memory).2 = h.memory := by
      rw [hbasic]
      rfl
    exact Hart.Guards.of_eq rfl hmemory hbasic
  regs _ _ := .of_eq rfl rfl
  accrue h flags := by
    unfold Hart.accrue
    split <;> exact .of_eq rfl rfl
  reserve _ _ _ := .of_eq rfl rfl
  waiting _ _ := .of_eq rfl rfl
  write h addr data hbasic := ⟨hbasic, AddressSpace.guards_write addr data h.memory⟩
  pc _ _ := .of_eq rfl rfl
  writeCsr _ h addr v h' hwrite := by
    obtain ⟨-, rfl⟩ := Hart.writeCsr_eq_ok hwrite
    cases (h.csrs.set addr v).1 <;> exact .of_eq rfl rfl
  halt _ _ _ _ := .of_eq rfl rfl
  machineReturn _ _ _ := .of_eq rfl rfl

/-- No instruction gets around the permissions. -/
theorem Acts.guards (hx : Acts can x) : Keeps Hart.Guards x := hx.keeps respects_guards

end Exec

/-! ## Runs -/

namespace Hart

variable {table : DispatchTable} {sets : List InstructionSet} {h b k : Hart} {inst : Instruction}

/-- What is fetched in a step lies in an executable section. -/
theorem executable_of_fetched? (hb : k.fetching? = some b) (hfetched : k.fetched? = some inst) :
    ∃ s, k.memory.sectionFor? b.pc = some s ∧ s.permissions.executable = true ∧
      s.base.toNat ≤ b.pc.toNat ∧ b.pc.toNat + 4 ≤ s.endAddress ∧
      4 ∣ b.pc.toNat - s.base.toNat := by
  have hmemory : b.memory = k.memory := by
    obtain ⟨-, -, -, rfl⟩ := fetching?_eq_some hb
    exact (atBoundary_frame k).2.2
  simp only [fetched?, hb, Option.bind_some] at hfetched
  split at hfetched
  case h_1 inst' memory hfetch =>
    obtain ⟨s, t, hs, hst⟩ := AddressSpace.section_of_fetch hfetch
    rw [hmemory] at hs
    exact ⟨s, hs, Section.executable_of_fetch hst⟩
  case h_2 => cases hfetched

section Table

variable (hsets : ∀ s ∈ sets, s ∈ InstructionSet.standard)
  (hbuild : DispatchTable.build sets = .ok table)

include hsets hbuild

theorem stepwise_guards : Stepwise table Guards where
  refl _ := .of_eq rfl rfl
  trans := .trans
  frame _ _ _ _ _ _ _ _ _ := .of_eq rfl rfl
  boundary h := by
    obtain ⟨csrs, traps, timer, privilege, reservation, waiting, pc, hat⟩ := atBoundary_eq h
    rw [hat]
    exact .of_eq rfl rfl
  fetch h addr hbasic := ⟨hbasic, AddressSpace.guards_fetch addr h.memory⟩
  handler _ _ hfind inst := (DispatchTable.acts_of_handler? hsets hbuild hfind inst).guards
  raise _ _ := .of_eq rfl rfl

/-- After any number of steps every section is still there, with its name, owner, base, size and
permissions, and with what it holds if that may not be written or is instructions; all others are
windows. Every instruction that is handed to its handler was fetched from a section that was
executable at the start, at a multiple of four bytes from its base and with all four bytes in it. -/
theorem permissions_hold (hbasic : h.syscallHandler = .basic) (hreaches : Reaches table h k) :
    h.memory.Guards k.memory ∧
      ∀ b inst, k.fetching? = some b → k.fetched? = some inst →
        (table.handler? inst.mnemonic).isSome →
        ∃ s ∈ h.memory.sections, ∃ t, s.Keeps t ∧ k.memory.sectionFor? b.pc = some t ∧
          t.permissions.executable = true ∧ t.base.toNat ≤ b.pc.toNat ∧
          b.pc.toNat + 4 ≤ t.endAddress ∧ 4 ∣ b.pc.toNat - t.base.toNat := by
  obtain ⟨-, hguards⟩ := (stepwise_guards hsets hbuild).reaches hreaches hbasic
  refine ⟨hguards, fun b inst hb hfetched _ => ?_⟩
  obtain ⟨t, ht, hexecutable, hplace⟩ := executable_of_fetched? hb hfetched
  rcases hguards.fresh t (AddressSpace.mem_of_sectionFor? ht).1 with ⟨s, hs, hst⟩ | hwindow
  · exact ⟨s, hs, t, hst, ht, hexecutable, hplace⟩
  · rw [hwindow.permissions] at hexecutable
    cases hexecutable

end Table

/-- A hart that loads from an unmapped address, stores to its data, and then over its code. -/
def trespassing : Hart :=
  { regs := (({} : RegisterFile).write 5 0x1F).write 6 0x1000
    memory := ((AddressSpace.empty true 0x1000).insertSection
      (.ofWords ".text" 0 .code [0x10032383, 0x00532023, 0x00502023])).insertSection
        (.zeroed ".data" 0x1000 16 .data) }

/-- The hart at its third instruction. -/
def atTrespass : Hart := (trespassing.stepped integerTable).stepped integerTable

/-- A window is mapped and the data changes. The code is still there for the store that would change
it, and that store is refused. -/
theorem permissions_hold_of_trespassing :
    trespassing.memory.Guards atTrespass.memory ∧
      (atTrespass.memory.sections.map (·.name)) = [".text", ".data", ".empty"] ∧
      atTrespass.memory.byteAt? 0x1000 = some 0x1F ∧
      (∃ b, atTrespass.fetching? = some b ∧ b.pc = 8 ∧
        ∃ s ∈ trespassing.memory.sections, ∃ t, s.Keeps t ∧
          atTrespass.memory.sectionFor? b.pc = some t ∧ t.permissions.executable = true ∧
          t.base.toNat ≤ b.pc.toNat ∧ b.pc.toNat + 4 ≤ t.endAddress ∧
          4 ∣ b.pc.toNat - t.base.toNat) ∧
      trespassing.memory.Guards (atTrespass.stepped integerTable).memory ∧
      (atTrespass.stepped integerTable).halted = true := by
  have hbuild : DispatchTable.build [.integer] = .ok integerTable :=
    DispatchTable.build_eq_ok (by decide +kernel)
  have hholds := fun k => permissions_hold (h := trespassing) (k := k)
    (by simp [InstructionSet.standard]) hbuild rfl
  have hreached : Reaches integerTable trespassing atTrespass := .step (.step .refl)
  obtain ⟨hguards, hexecutable⟩ := hholds atTrespass hreached
  refine ⟨hguards, by decide +kernel, by decide +kernel, ?_, (hholds _ hreached.step).1,
    by decide +kernel⟩
  have hfetching : atTrespass.fetching?.map Hart.pc = some 8 := by decide +kernel
  obtain ⟨b, hb, hpc⟩ := Option.map_eq_some_iff.1 hfetching
  have hfetched : atTrespass.fetched?.isSome = true := by decide +kernel
  obtain ⟨inst, hinst⟩ := Option.isSome_iff_exists.1 hfetched
  have hknows : atTrespass.Knows integerTable := by decide +kernel
  exact ⟨b, hb, hpc, hexecutable b inst hb hinst (hknows inst hinst)⟩

end Hart
end Riscv32
