import Riscv32.Hart.State
import Riscv32.Proofs.Memory.Loading

/-!
# Room for programs

A movable program that is to lie nowhere in particular goes to the next load base: the least
multiple of the load alignment behind the sections that programs brought along. Sections of the
system do not count, be it a stack, a section that was allocated or a window that was mapped on
demand. So the program may run into one of them, and then it is refused although there may be
room behind it.

## Main definitions

* `AddressSpace.LoadsAtNext m p r` — all that can become of a load that may place the program
  anywhere.
* `AddressSpace.FindsRoom m r` — the outcome of a load that looked for room behind all of `m`.
* `AddressSpace.RunsInto m p` — a section of the system is where the program would go.

## Main statements

* `AddressSpace.endAddress_le_nextLoadBase`, what the next load base is behind.
* `AddressSpace.load_of_movable`, `AddressSpace.load_overlaps_iff`, what becomes of such a load.
* `AddressSpace.loads_find_room_iff`, the spaces in which every movable program finds room.
* `Hart.reachable_launch`, the memory of a hart that was launched.
-/
namespace Riscv32

namespace Program

variable {l : List Section} {bound : Nat}

private theorem foldl_max_le_iff (first : Nat) :
    l.foldl (fun e s => max e s.endAddress) first ≤ bound ↔
      first ≤ bound ∧ ∀ s ∈ l, s.endAddress ≤ bound := by
  induction l generalizing first with
  | nil => simp
  | cons s rest ih => rw [List.foldl_cons, ih, Nat.max_le, List.forall_mem_cons, and_assoc]

/-- The highest end is the least bound on all ends. -/
theorem highestEnd_le_iff : highestEnd l ≤ bound ↔ ∀ s ∈ l, s.endAddress ≤ bound := by
  rw [highestEnd, foldl_max_le_iff]
  exact and_iff_right (Nat.zero_le _)

end Program

namespace AddressSpace

variable {least : Nat} {m m' : AddressSpace} {p q : Program} {s t : Section} {base : Word}

/-! ## The load alignment -/

/-- No call changes the load alignment. -/
theorem loadAlignment_after (m : AddressSpace) (c : Call) :
    (m.after c).loadAlignment = m.loadAlignment := by
  rcases m.after_cases c with ⟨p, requested, base, q, rfl, -, hload⟩ | ⟨-, sections, hafter⟩
  · simp only [after, hload, Except.toOption, Option.map_some, Option.getD_some]
    rfl
  · rw [hafter]

theorem Reachable.isPowerOfTwo_loadAlignment (h : Reachable least m) :
    m.loadAlignment.isPowerOfTwo := by
  induction h with
  | empty lazyMapping loadAlignment => exact Nat.isPowerOfTwo_nextPowerOfTwo loadAlignment
  | call _ _ ih => rw [loadAlignment_after]; exact ih

theorem Reachable.loadAlignment_pos (h : Reachable least m) : 0 < m.loadAlignment :=
  Nat.pos_of_isPowerOfTwo h.isPowerOfTwo_loadAlignment

/-! ## The next load base -/

theorem loadAlignment_dvd_nextLoadBase (m : AddressSpace) : m.loadAlignment ∣ m.nextLoadBase :=
  dvd_alignUp _ _

/-- The next load base is behind every section that the system does not own. -/
theorem endAddress_le_nextLoadBase (hpos : 0 < m.loadAlignment) (hs : s ∈ m.sections)
    (howner : s.owner ≠ systemOwner) : s.endAddress ≤ m.nextLoadBase := by
  let loaded := m.sections.filter (·.owner != systemOwner)
  have hmem : s ∈ loaded := List.mem_filter.2 ⟨hs, bne_iff_ne.2 howner⟩
  calc s.endAddress
      ≤ Program.highestEnd loaded := Program.highestEnd_le_iff.1 (le_refl _) s hmem
    _ ≤ max (Program.highestEnd loaded) m.loadAlignment := le_max_left _ _
    _ ≤ m.nextLoadBase := le_alignUp _ hpos

/-- The next load base as an address. -/
def nextBase (m : AddressSpace) : Word := BitVec.ofNat 32 m.nextLoadBase

theorem toNat_nextBase (h : m.nextLoadBase < addressCount) : m.nextBase.toNat = m.nextLoadBase := by
  rw [nextBase, BitVec.toNat_ofNat]
  exact Nat.mod_eq_of_lt h

/-- A movable program that is to lie nowhere in particular goes to the next load base. -/
theorem chooseBase_of_movable (m : AddressSpace) (hnone : p.base = none) : m.chooseBase p none =
    if m.nextLoadBase < addressCount then .ok m.nextBase else .error (.addressOverflow p.name) := by
  rw [chooseBase, hnone]
  rfl

/-! ## Loads that look for room -/

/-- All that can become of the load of a movable program that is to lie nowhere in particular. -/
inductive LoadsAtNext (m : AddressSpace) (p : Program) :
    Except PlacementError (Word × AddressSpace) → Prop
  | full : addressCount ≤ m.nextLoadBase → LoadsAtNext m p (.error (.addressOverflow p.name))
  | tooLong (s : Section) : m.nextLoadBase < addressCount → s ∈ p.sections →
    Program.fitsAt m.nextBase s = false → LoadsAtNext m p (.error (.addressOverflow s.name))
  | refused (e : PlacementError) : m.nextLoadBase < addressCount →
    (∀ s ∈ p.sections, Program.fitsAt m.nextBase s = true) →
    m.refusal? (p.shifted m.nextBase) = some e → LoadsAtNext m p (.error e)
  | placed : m.nextLoadBase < addressCount →
    (∀ s ∈ p.sections, Program.fitsAt m.nextBase s = true) →
    m.refusal? (p.shifted m.nextBase) = none →
    LoadsAtNext m p (.ok (m.nextBase, m.withProgram (p.shifted m.nextBase) m.nextBase))

theorem load_of_movable (hnone : p.base = none) : LoadsAtNext m p (m.load p none) := by
  have hchoose := chooseBase_of_movable m hnone
  by_cases hlt : m.nextLoadBase < addressCount
  · rw [if_pos hlt] at hchoose
    by_cases hfits : ∀ s ∈ p.sections, Program.fitsAt m.nextBase s = true
    · have hplace := Program.placeAt_of_fits hnone hfits
      cases hrefuse : m.refusal? (p.shifted m.nextBase) with
      | some e =>
        rw [load_of_refusal hchoose hplace hrefuse]
        exact .refused e hlt hfits hrefuse
      | none =>
        rw [load_of_placed hchoose hplace hrefuse]
        exact .placed hlt hfits hrefuse
    · cases hplace : p.placeAt m.nextBase with
      | ok q => exact absurd ((Program.placeAt_spec hplace).fits hnone) hfits
      | error e =>
        obtain ⟨s, hs, hfit, rfl⟩ := Program.addressOverflow_of_placeAt hnone hplace
        rw [load_of_placeAt_error hchoose hplace]
        exact .tooLong s hlt hs hfit
  · rw [if_neg hlt] at hchoose
    rw [load_of_chooseBase_error hchoose]
    exact .full (Nat.not_lt.1 hlt)

/-- The outcome of a load that looked for room behind all of a space: a base there, or a failure
for want of room or of a fresh name. -/
inductive FindsRoom (m : AddressSpace) : Except PlacementError (Word × AddressSpace) → Prop
  | placed (base : Word) (m' : AddressSpace) : m.loadAlignment ∣ base.toNat →
    (∀ s ∈ m.sections, s.endAddress ≤ base.toNat) → FindsRoom m (.ok (base, m'))
  | addressOverflow (name : String) : FindsRoom m (.error (.addressOverflow name))
  | duplicateGlobal (name : String) : FindsRoom m (.error (.duplicateGlobal name))

/-- There is a next load base at which all of the program fits, but a section of the system lies
where a section of the program would. -/
structure RunsInto (m : AddressSpace) (p : Program) : Prop where
  base_lt : m.nextLoadBase < addressCount
  fits : ∀ s ∈ p.sections, Program.fitsAt m.nextBase s = true
  meets : ∃ s ∈ p.sections, ∃ t ∈ m.sections, t.owner = systemOwner ∧
    t.overlaps (s.moved m.nextBase) = true

/-- A section keeps apart from what is moved behind it. -/
theorem overlaps_moved_of_le (hfit : Program.fitsAt base s = true)
    (hend : t.endAddress ≤ base.toNat) : t.overlaps (s.moved base) = false := by
  rw [Section.overlaps_eq_false_iff, Section.toNat_base_moved hfit]
  exact .inr (le_trans hend (Nat.le_add_left _ _))

/-- A program that is refused where it was moved to meets a section that ends above its base, or
exports a name that is global. -/
theorem refusal?_shifted {e : PlacementError}
    (hfits : ∀ s ∈ p.sections, Program.fitsAt base s = true)
    (h : m.refusal? (p.shifted base) = some e) :
    (∃ s ∈ p.sections, ∃ t ∈ m.sections, base.toNat < t.endAddress ∧
      t.overlaps (s.moved base) = true) ∨ ∃ name, e = .duplicateGlobal name := by
  rcases refusal?_cases h with ⟨u, hu, t, ht, hmeets, -⟩ | ⟨-, name, -, -, he⟩
  · left
    obtain ⟨s, hs, rfl⟩ := List.mem_map.1 hu
    refine ⟨s, hs, t, ht, ?_, hmeets⟩
    by_contra hle
    have hapart := overlaps_moved_of_le (hfits s hs) (Nat.not_lt.1 hle)
    exact absurd (hapart.symm.trans hmeets) (by decide)
  · exact .inr ⟨name, he⟩

/-- A movable program finds room if the next load base is behind all sections. -/
theorem load_finds_room (hnone : p.base = none) (hbehind : m.nextLoadBase < addressCount →
      ∀ t ∈ m.sections, t.endAddress ≤ m.nextLoadBase) : FindsRoom m (m.load p none) := by
  have hload := load_of_movable (m := m) hnone
  generalize m.load p none = r at hload ⊢
  cases hload with
  | full _ => exact .addressOverflow p.name
  | tooLong s _ _ _ => exact .addressOverflow s.name
  | placed hlt _ _ =>
    refine .placed _ _ ?_ ?_
    · rw [toNat_nextBase hlt]
      exact loadAlignment_dvd_nextLoadBase m
    · rw [toNat_nextBase hlt]
      exact hbehind hlt
  | refused e hlt hfits hrefuse =>
    rcases refusal?_shifted hfits hrefuse with ⟨s, -, t, ht, hend, -⟩ | ⟨name, rfl⟩
    · rw [toNat_nextBase hlt] at hend
      exact absurd (hbehind hlt t ht) (Nat.not_le.2 hend)
    · exact .duplicateGlobal name

/-- A movable program is refused for an overlap exactly if it runs into a section of the system. -/
theorem load_overlaps_iff (hpos : 0 < m.loadAlignment) (hnone : p.base = none) :
    (∃ name start size other, m.load p none = .error (.overlap name start size other)) ↔
      RunsInto m p := by
  have hload := load_of_movable (m := m) hnone
  generalize m.load p none = r at hload
  constructor
  · rintro ⟨name, start, size, other, rfl⟩
    cases hload with
    | refused _ hlt hfits hrefuse =>
      refine ⟨hlt, hfits, ?_⟩
      rcases refusal?_shifted hfits hrefuse with ⟨s, hs, t, ht, hend, hmeets⟩ | ⟨name', he⟩
      · refine ⟨s, hs, t, ht, ?_, hmeets⟩
        by_contra howner
        rw [toNat_nextBase hlt] at hend
        exact absurd (endAddress_le_nextLoadBase hpos ht howner) (Nat.not_le.2 hend)
      · cases he
  · rintro ⟨hlt, hfits, s, hs, t, ht, -, hmeets⟩
    have hmem : s.moved m.nextBase ∈ (p.shifted m.nextBase).sections :=
      List.mem_map.2 ⟨s, hs, rfl⟩
    cases hload with
    | full hfull => exact absurd hlt (Nat.not_lt.2 hfull)
    | tooLong u _ hu hlong => exact absurd ((hfits u hu).symm.trans hlong) (by decide)
    | placed _ _ hrefuse =>
      exact absurd ((refusal?_eq_none hrefuse _ hmem t ht).symm.trans hmeets) (by decide)
    | refused e _ _ hrefuse =>
      rcases refusal?_cases hrefuse with ⟨u, -, v, -, -, rfl⟩ | ⟨hapart, -⟩
      · exact ⟨_, _, _, _, rfl⟩
      · exact absurd ((hapart _ hmem t ht).symm.trans hmeets) (by decide)

/-- **Room for movable programs.** In a reachable space every movable program finds room exactly if
the address space ends below the next load base or no section of the system ends above it. In any
case a program that is taken in lies at the next load base, behind all that programs brought along,
and one that is refused for an overlap ran into a section of the system. -/
theorem loads_find_room_iff (h : Reachable 0 m) :
    ((∀ p : Program, p.base = none → FindsRoom m (m.load p none)) ↔
      (m.nextLoadBase < addressCount →
        ∀ t ∈ m.sections, t.owner = systemOwner → t.endAddress ≤ m.nextLoadBase)) ∧
    ∀ p : Program, p.base = none →
      (∀ base m', m.load p none = .ok (base, m') →
        base.toNat = m.nextLoadBase ∧ m.loadAlignment ∣ base.toNat ∧
          ∀ s ∈ m.sections, s.owner ≠ systemOwner → s.endAddress ≤ base.toNat) ∧
      ((∃ name start size other, m.load p none = .error (.overlap name start size other)) ↔
        RunsInto m p) := by
  have hpos := h.loadAlignment_pos
  refine ⟨⟨?_, ?_⟩, ?_⟩
  · -- a program without sections is placed in any case
    intro hall hlt t ht _
    have hroom := hall { name := "" } rfl
    have hload := load_of_movable (m := m) (p := { name := "" }) rfl
    generalize m.load { name := "" } none = r at hroom hload
    cases hload with
    | full hfull => exact absurd hlt (Nat.not_lt.2 hfull)
    | tooLong s _ hs _ => cases hs
    | refused e _ _ hrefuse => cases hrefuse
    | placed _ _ _ =>
      cases hroom with
      | placed _ _ _ hend =>
        rw [← toNat_nextBase hlt]
        exact hend t ht
  · intro hsystem p hnone
    refine load_finds_room hnone ?_
    intro hlt t ht
    by_cases howner : t.owner = systemOwner
    · exact hsystem hlt t ht howner
    · exact endAddress_le_nextLoadBase hpos ht howner
  · intro p hnone
    refine ⟨?_, load_overlaps_iff hpos hnone⟩
    intro base m' hok
    have hload := load_of_movable (m := m) hnone
    rw [hok] at hload
    cases hload with
    | placed hlt _ _ =>
      rw [toNat_nextBase hlt]
      exact ⟨rfl, loadAlignment_dvd_nextLoadBase m, fun s => endAddress_le_nextLoadBase hpos⟩

end AddressSpace

namespace Hart

/-- A hart gets a stack by an allocation, unless it has one or is to have none. -/
theorem withStack_eq_ok {h h' : Hart} (hstack : h.withStack = .ok h') :
    (h.stackSize = 0 ∨ (h.memory.sectionNamed? stackName).isSome = true) ∧ h' = h ∨
      (h.memory.sectionNamed? stackName).isSome = false ∧ ∃ base memory,
        h.memory.allocate stackName h.stackSize.toNat .data = .ok (base, memory) ∧
          h' = { h with
            memory, regs := h.regs.write Register.stackPointer (base + h.stackSize) } := by
  unfold withStack at hstack
  split at hstack
  case isTrue hkeep =>
    cases hstack
    exact .inl ⟨hkeep, rfl⟩
  case isFalse hnone =>
    rw [not_or, Bool.not_eq_true] at hnone
    split at hstack
    case h_1 => cases hstack
    case h_2 base memory hallocate =>
      cases hstack
      exact .inr ⟨hnone.2, base, memory, hallocate, rfl⟩

/-- A stack is allocated like any other section of the system. -/
theorem memory_withStack {h h' : Hart} (hstack : h.withStack = .ok h') :
    h'.memory = h.memory ∨
      h'.memory = h.memory.after (.allocate stackName h.stackSize.toNat .data) := by
  rcases withStack_eq_ok hstack with ⟨-, rfl⟩ | ⟨-, base, memory, hallocate, rfl⟩
  · exact .inl rfl
  · right
    simp only [AddressSpace.after, hallocate]
    rfl

/-- A launch changes the registers, where the hart is, and the memory by the stack at most. -/
theorem launch_frame (h : Hart) (entry : Option Word) :
    ∃ regs memory pc, (h.launch entry).2 = { h with regs, memory, pc } ∧
      (memory = h.memory ∨
        memory = h.memory.after (.allocate stackName h.stackSize.toNat .data)) := by
  unfold launch
  dsimp only
  split
  case isTrue => exact ⟨_, _, _, rfl, .inl rfl⟩
  case isFalse =>
    split
    case h_1 => exact ⟨_, _, _, rfl, .inl rfl⟩
    case h_2 h' hstack =>
      have hmemory := memory_withStack hstack
      rcases withStack_eq_ok hstack with ⟨-, rfl⟩ | ⟨-, base, memory, -, rfl⟩
      · exact ⟨_, _, _, rfl, hmemory⟩
      · exact ⟨_, _, _, rfl, hmemory⟩

/-- A launch leaves the memory of a hart reachable. -/
theorem reachable_launch {h : Hart} (hreach : AddressSpace.Reachable 0 h.memory)
    (entry : Option Word) : AddressSpace.Reachable 0 (h.launch entry).2.memory := by
  obtain ⟨regs, memory, pc, hlaunch, hmemory⟩ := launch_frame h entry
  rw [hlaunch]
  change AddressSpace.Reachable 0 memory
  rcases hmemory with rfl | rfl
  · exact hreach
  · exact .call hreach (Nat.zero_le _)

end Hart

namespace AddressSpace

/-- The memory of a hart with a program after the hart was launched. -/
def afterLaunch : AddressSpace :=
  (Hart.launch { memory := withLibrary, stackSize := 0x80000 } none).2.memory

theorem reachable_afterLaunch : Reachable 0 afterLaunch :=
  Hart.reachable_launch reachable_withLibrary none

/-- Before the launch all movable programs find room. The stack then lies across the next load
base, where no second program can go. -/
theorem room_until_launch :
    Reachable 0 withLibrary ∧ (withLibrary.nextLoadBase < addressCount →
        ∀ t ∈ withLibrary.sections, t.owner = systemOwner →
          t.endAddress ≤ withLibrary.nextLoadBase) ∧
      FindsRoom withLibrary (withLibrary.load (exporting "app" "main" 4) none) ∧
      Reachable 0 afterLaunch ∧ RunsInto afterLaunch (exporting "app" "main" 4) ∧
      ∃ name start size other, afterLaunch.load (exporting "app" "main" 4) none =
        .error (.overlap name start size other) := by
  have hbefore : withLibrary.nextLoadBase < addressCount → ∀ t ∈ withLibrary.sections,
      t.owner = systemOwner → t.endAddress ≤ withLibrary.nextLoadBase := by decide
  have hinto : RunsInto afterLaunch (exporting "app" "main" 4) := ⟨by decide, by decide, by decide⟩
  have hroom := (loads_find_room_iff reachable_withLibrary).1.2 hbefore
  have hoverlap := (loads_find_room_iff reachable_afterLaunch).2 (exporting "app" "main" 4) rfl
  exact ⟨reachable_withLibrary, hbefore, hroom _ rfl, reachable_afterLaunch, hinto,
    hoverlap.2.2 hinto⟩

/-- A movable program can be refused for an overlap with the stack of a launched hart. -/
theorem not_loads_find_room :
    ¬ ∀ (m : AddressSpace) (p : Program), Reachable 0 m → p.Built → p.base = none →
      FindsRoom m (m.load p none) := by
  intro hall
  have hroom := hall afterLaunch (exporting "app" "main" 4) reachable_afterLaunch
    (built_exporting ..) rfl
  have hload : afterLaunch.load (exporting "app" "main" 4) none =
      .error (.overlap ".text" 0x2000 16 ".stack") := rfl
  rw [hload] at hroom
  cases hroom

end AddressSpace
end Riscv32
