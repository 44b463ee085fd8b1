import Riscv32.Proofs.Memory.Flat
import Riscv32.Proofs.Memory.Loading
import Riscv32.Proofs.Memory.Window

/-!
# Where sections come from

Every section of a reachable address space was handed in, or it was mapped around an address that
an access missed. A window contains the address that it was mapped for and keeps off the sections
around it. How far up it reaches depends on what comes next: if no section begins above the missed
address, then the window ends with the part of the address space in which sections are mapped on
demand. Otherwise the window ends at the next section at the latest, and where that one begins is
not compared with the end of that part. So a window near the end goes beyond it exactly if there is
a section behind.

## Main definitions

* `AddressSpace.brought m c` — the sections that a call puts in because it was asked to.
* `AddressSpace.Miss` — an access to an address without a section, which maps a window.
* `AddressSpace.History m given misses` — the spaces that calls lead to, with what was handed in and
  what was missed on the way.
* `AddressSpace.Miss.Overreaches` — a miss near the end with a section behind it.

## Main statements

* `AddressSpace.origin_of_after`, where the sections come from that a call leaves.
* `AddressSpace.History.origin`, where the sections of a reachable space come from.
* `AddressSpace.windows_bounded_iff`, the windows that end where they should.
-/
namespace Riscv32

namespace Section

variable {s t u : Section}

/-- Two sections have the same base and the same size. -/
structure SamePlace (s t : Section) : Prop where
  base : t.base = s.base
  size : t.size = s.size

theorem SamePlace.refl (s : Section) : s.SamePlace s := ⟨rfl, rfl⟩

theorem SamePlace.trans (h : s.SamePlace t) (h' : t.SamePlace u) : s.SamePlace u :=
  ⟨h'.base.trans h.base, h'.size.trans h.size⟩

theorem SamePlace.contains_eq (h : s.SamePlace t) (addr : Word) :
    t.contains addr = s.contains addr :=
  contains_congr h.base h.size addr

end Section

namespace AddressSpace

variable {m m' : AddressSpace} {addr : Word} {t : Section} {c : Call} {given : List Section}

/-! ## What a call brings and misses -/

/-- The sections that a call puts in because it was asked to. -/
def brought (m : AddressSpace) : Call → List Section
  | .addSection s => ((m.addSection s).toOption.map fun _ => [s]).getD []
  | .load p requested =>
    ((m.load p requested).toOption.map fun r => p.sectionsAt r.1).getD []
  | .allocate name size permissions =>
    ((m.allocate name size permissions).toOption.map fun r =>
      [Section.zeroed name r.1 size permissions]).getD []
  | .read _ _ | .write _ _ | .fetch _ => []

/-- The address that a call accesses. -/
def Call.accessed? : Call → Option Word
  | .read addr _ | .write addr _ | .fetch addr => some addr
  | .addSection _ | .load _ _ | .allocate _ _ _ => none

/-- An access to an address in a space. -/
structure Miss where
  space : AddressSpace
  addr : Word

/-- The section that is mapped for a miss. -/
def Miss.window (k : Miss) : Section := k.space.window k.addr

/-- The miss of a call, if it maps a window. -/
def missed (m : AddressSpace) (c : Call) : List Miss :=
  (c.accessed?.filter fun addr => decide (m.Maps addr)).toList.map (⟨m, ·⟩)

theorem mem_missed {k : Miss} :
    k ∈ m.missed c ↔ k.space = m ∧ c.accessed? = some k.addr ∧ m.Maps k.addr := by
  simp only [missed, List.mem_map, Option.mem_toList, Option.filter_eq_some_iff, decide_eq_true_eq]
  constructor
  · rintro ⟨addr, ⟨haddr, hmaps⟩, rfl⟩
    exact ⟨rfl, haddr, hmaps⟩
  · rintro ⟨rfl, haddr, hmaps⟩
    exact ⟨k.addr, ⟨haddr, hmaps⟩, rfl⟩

/-- A section is where one of the given ones is, or where a window of one of the misses is. -/
def Originates (given : List Section) (misses : List Miss) (t : Section) : Prop :=
  (∃ s ∈ given, s.SamePlace t) ∨ ∃ k ∈ misses, k.window.SamePlace t

theorem Originates.mono {given' : List Section} {misses misses' : List Miss}
    (h : Originates given misses t) (hgiven : given ⊆ given') (hmisses : misses ⊆ misses') :
    Originates given' misses' t := by
  rcases h with ⟨s, hs, hplace⟩ | ⟨k, hk, hplace⟩
  · exact .inl ⟨s, hgiven hs, hplace⟩
  · exact .inr ⟨k, hmisses hk, hplace⟩

/-- The space that an access searches has the old sections, and the window of a miss. -/
theorem origin_of_serves (h : Serves addr m m') (hc : c.accessed? = some addr)
    (ht : t ∈ m'.sections) : Originates m.sections (m.missed c) t := by
  cases h with
  | found => exact .inl ⟨t, ht, .refl t⟩
  | mapped hs hlazy ha =>
    have hmiss : (⟨m, addr⟩ : Miss) ∈ m.missed c := mem_missed.2 ⟨rfl, hc, hlazy, hs, ha⟩
    change t ∈ m.below addr ++ m.window addr :: m.above addr at ht
    rw [List.mem_append, List.mem_cons, or_left_comm, ← List.mem_append, below_append_above] at ht
    rcases ht with rfl | ht
    · exact .inr ⟨_, hmiss, .refl _⟩
    · exact .inl ⟨t, ht, .refl t⟩

/-- A section that is replaced in its place comes from where the old one does. -/
theorem origin_of_replaced {front back : List Section} {s s' : Section}
    (h : ∀ u ∈ front ++ s :: back, Originates given (m.missed c) u) (hplace : s.SamePlace s')
    (ht : t ∈ front ++ s' :: back) : Originates given (m.missed c) t := by
  rw [List.mem_append, List.mem_cons, or_left_comm] at ht
  rcases ht with rfl | ht
  · rcases h s (by simp) with ⟨u, hu, hsame⟩ | ⟨k, hk, hsame⟩
    · exact .inl ⟨u, hu, hsame.trans hplace⟩
    · exact .inr ⟨k, hk, hsame.trans hplace⟩
  · refine h t ?_
    rw [List.mem_append, List.mem_cons]
    exact ht.imp id .inr

/-- A section that a call leaves was there before, was asked for, or is the window of a miss. -/
theorem origin_of_after (hm : Section.Sorted m.sections) (ht : t ∈ (m.after c).sections) :
    Originates (m.sections ++ m.brought c) (m.missed c) t := by
  have hkeep : ∀ {u}, Originates m.sections (m.missed c) u →
      Originates (m.sections ++ m.brought c) (m.missed c) u := fun h =>
    h.mono (List.subset_append_left _ _) (List.Subset.refl _)
  have hstays : t ∈ m.sections → Originates (m.sections ++ m.brought c) (m.missed c) t :=
    fun h => hkeep (.inl ⟨t, h, .refl t⟩)
  cases c with
  | addSection s =>
    cases h : m.addSection s with
    | error e => exact hstays (by simpa [after, h, Except.toOption] using ht)
    | ok m' =>
      obtain ⟨-, rfl⟩ := addSection_eq_ok h
      simp only [after, h, Except.toOption, Option.getD_some] at ht
      rcases Section.mem_insertByBase.1 ht with rfl | ht
      · refine .inl ⟨t, ?_, .refl t⟩
        simp [brought, h, Except.toOption]
      · exact hstays ht
  | load p requested =>
    cases h : m.load p requested with
    | error e => exact hstays (by simpa [after, h, Except.toOption] using ht)
    | ok r =>
      obtain ⟨base, m'⟩ := r
      obtain ⟨q, hplace, -, rfl⟩ := load_eq_ok h
      simp only [after, h, Except.toOption, Option.map_some, Option.getD_some] at ht
      rcases mem_insertAll (m := m) ht with hq | ht
      · refine .inl ⟨t, ?_, .refl t⟩
        rw [(Program.placeAt_spec hplace).sections] at hq
        simp [brought, h, Except.toOption, hq]
      · exact hstays ht
  | allocate name size permissions =>
    cases h : m.allocate name size permissions with
    | error e => exact hstays (by simpa [after, h, Except.toOption] using ht)
    | ok r =>
      obtain ⟨base, m'⟩ := r
      obtain ⟨s, hbase, hsize, -, rfl⟩ := allocate_eq_ok hm h
      simp only [after, h, Except.toOption, Option.map_some, Option.getD_some] at ht
      rcases Section.mem_insertByBase.1 ht with rfl | ht
      · refine .inl ⟨Section.zeroed name base size permissions, ?_, hbase, hsize⟩
        simp [brought, h, Except.toOption]
      · exact hstays ht
  | read addr size =>
    simp only [after, stateAfter] at ht
    split at ht
    case h_1 h => exact hkeep (origin_of_serves (read_eq_ok h).1 rfl ht)
    case h_2 h => exact hkeep (origin_of_serves (read_eq_error h) rfl ht)
  | write addr data =>
    simp only [after, stateAfter] at ht
    split at ht
    case h_1 h =>
      obtain ⟨m₁, front, s, s', back, hserves, hs, -, hwrite, rfl⟩ := write_eq_ok h
      obtain ⟨hb, hz⟩ := Section.size_eq_of_write hwrite
      refine hkeep (origin_of_replaced (s := s) ?_ ⟨hb, hz⟩ ht)
      exact fun u hu => origin_of_serves hserves rfl (hs ▸ hu)
    case h_2 h => exact hkeep (origin_of_serves (write_eq_error h) rfl ht)
  | fetch addr =>
    simp only [after, stateAfter] at ht
    split at ht
    case h_1 h =>
      obtain ⟨m₁, front, s, s', back, hserves, hs, -, hfetch, rfl⟩ := fetch_eq_ok h
      obtain ⟨hb, hz⟩ := Section.size_eq_of_fetch hfetch
      refine hkeep (origin_of_replaced (s := s) ?_ ⟨hb, hz⟩ ht)
      exact fun u hu => origin_of_serves hserves rfl (hs ▸ hu)
    case h_2 h => exact hkeep (origin_of_serves (fetch_eq_error h) rfl ht)

/-! ## Histories -/

/-- Calls lead from an empty space to `m`. On the way they put in the sections `given`, and
`misses` are the accesses that mapped a window. -/
inductive History : AddressSpace → List Section → List Miss → Prop
  | empty (lazyMapping : Bool) (loadAlignment : Nat) :
    History (.empty lazyMapping loadAlignment) [] []
  | call {m : AddressSpace} {given : List Section} {misses : List Miss} {c : Call} :
    History m given misses → c.Brings 0 →
      History (m.after c) (given ++ m.brought c) (misses ++ m.missed c)

namespace History

variable {misses : List Miss} {k : Miss}

theorem reachable (h : History m given misses) : Reachable 0 m := by
  induction h with
  | empty lazyMapping loadAlignment => exact .empty lazyMapping loadAlignment
  | call _ hc ih => exact .call ih hc

/-- Every reachable space has a history. -/
theorem exists_of_reachable (h : Reachable 0 m) : ∃ given misses, History m given misses := by
  induction h with
  | empty lazyMapping loadAlignment => exact ⟨[], [], .empty lazyMapping loadAlignment⟩
  | call _ hc ih =>
    obtain ⟨given, misses, hm⟩ := ih
    exact ⟨_, _, hm.call hc⟩

/-- Every section is where a given one is, or where a window was mapped. -/
theorem origin (h : History m given misses) : ∀ t ∈ m.sections, Originates given misses t := by
  induction h with
  | empty => intro t ht; simp [AddressSpace.empty] at ht
  | @call m given misses c hm hc ih =>
    intro t ht
    rcases origin_of_after hm.reachable.sorted ht with ⟨s, hs, hplace⟩ | ⟨k, hk, hplace⟩
    · rcases List.mem_append.1 hs with hs | hs
      · rcases ih s hs with ⟨u, hu, hsame⟩ | ⟨k, hk, hsame⟩
        · exact .inl ⟨u, List.mem_append_left _ hu, hsame.trans hplace⟩
        · exact .inr ⟨k, List.mem_append_left _ hk, hsame.trans hplace⟩
      · exact .inl ⟨s, List.mem_append_right _ hs, hplace⟩
    · exact .inr ⟨k, List.mem_append_right _ hk, hplace⟩

/-- A miss happened in the course of a shorter history. -/
theorem of_mem_misses (h : History m given misses) (hk : k ∈ misses) :
    k.space.Maps k.addr ∧
      ∃ given' misses', History k.space given' misses' ∧ given' ⊆ given ∧ misses' ⊆ misses := by
  induction h with
  | empty => cases hk
  | @call m given misses c hm hc ih =>
    rcases List.mem_append.1 hk with hk | hk
    · obtain ⟨hmaps, given', misses', hspace, hgiven, hmisses⟩ := ih hk
      exact ⟨hmaps, given', misses', hspace, List.subset_append_of_subset_left _ hgiven,
        List.subset_append_of_subset_left _ hmisses⟩
    · obtain ⟨rfl, -, hmaps⟩ := mem_missed.1 hk
      exact ⟨hmaps, given, misses, hm, List.subset_append_left _ _, List.subset_append_left _ _⟩

end History

/-! ## The end of a window -/

namespace Miss

variable {k : Miss}

/-- The window would reach beyond the end of what is mapped on demand, and the next section, which
should keep it from doing so, begins behind that end. -/
structure Overreaches (k : Miss) : Prop where
  near : mappableEnd < alignUp (k.addr.toNat + windowReach) windowAlignment
  behind : ∃ next, (k.space.above k.addr).head? = some next ∧ mappableEnd < next.base.toNat

/-- A window ends beyond what is mapped on demand exactly if its miss overreaches. -/
theorem endAddress_window_le_iff (h : k.space.Maps k.addr) :
    k.window.endAddress ≤ mappableEnd ↔ ¬ k.Overreaches := by
  have hend : k.window.endAddress = min (k.space.gapEnd k.addr)
      (alignUp (k.addr.toNat + windowReach) windowAlignment) :=
    endAddress_window h.unmapped h.mappable
  rw [hend, ← not_lt, not_iff_not, Nat.lt_min]
  constructor
  · rintro ⟨hgap, hnear⟩
    refine ⟨hnear, ?_⟩
    cases hhead : (k.space.above k.addr).head? with
    | none => simp [gapEnd, hhead] at hgap
    | some next => exact ⟨next, rfl, by simpa [gapEnd, hhead] using hgap⟩
  · rintro ⟨hnear, next, hhead, hbehind⟩
    exact ⟨by simpa [gapEnd, hhead] using hbehind, hnear⟩

/-- A window has bytes, and the address that was missed is among them. -/
theorem contains_addr (h : k.space.Maps k.addr) :
    k.window.contains k.addr = true ∧ 0 < k.window.size :=
  ⟨(window_spec h.unmapped h.mappable).1, size_window_pos h.unmapped h.mappable⟩

end Miss

/-- No access to the address finds a section or maps one. -/
structure OutOfReach (m : AddressSpace) (addr : Word) : Prop where
  read : ∀ size, AddressSpace.read addr size m = .error (.outOfBounds addr size .read) m
  write : ∀ data, AddressSpace.write addr data m = .error (.outOfBounds addr data.length .write) m
  fetch : AddressSpace.fetch addr m = .error (.outOfBounds addr 4 .fetch) m

/-- Behind what is mapped on demand, an address that no section contains is out of reach. -/
theorem outOfReach_of_forall (haddr : mappableEnd ≤ addr.toNat)
    (h : ∀ s ∈ m.sections, s.contains addr = false) : m.OutOfReach addr := by
  have hnone : m.sectionFor? addr = none := by
    cases hs : m.sectionFor? addr with
    | none => rfl
    | some s =>
      obtain ⟨hmem, hc⟩ := mem_of_sectionFor? hs
      rw [h s hmem] at hc
      cases hc
  have hmaps : ¬ m.Maps addr := fun hm => absurd hm.mappable (Nat.not_lt.2 haddr)
  constructor
  · intro size
    simp [AddressSpace.read, resolve_of_not_maps hnone hmaps]
  · intro data
    simp [AddressSpace.write, resolve_of_not_maps hnone hmaps]
  · simp [AddressSpace.fetch, resolve_of_not_maps hnone hmaps]

/-- A window makes readable what it contains. -/
theorem Miss.opens {k : Miss} (hm : Section.Sorted k.space.sections) (h : k.space.Maps k.addr)
    (haddr : mappableEnd ≤ addr.toNat) (hc : k.window.contains addr = true) :
    resultOf (AddressSpace.read addr 1) k.space = .error (.outOfBounds addr 1 .read) ∧
      resultOf (AddressSpace.read addr 1) (k.space.mapWindow k.addr) = .ok [0] := by
  have hmaps : ¬ k.space.Maps addr := fun hm => absurd hm.mappable (Nat.not_lt.2 haddr)
  have hend := ((Section.contains_iff _ _).1 hc).2
  refine ⟨resultOf_read_of_not_maps (unmapped_of_contains hm h hc) hmaps, ?_⟩
  rw [resultOf_read_of_contains hm h hc]
  exact if_pos hend

section Bounds

variable {misses : List Miss} {k : Miss}

/-- Where all that is handed in begins in the part that is mapped on demand, nothing overreaches. -/
theorem not_overreaches_of_low (h : History m given misses)
    (hlow : ∀ s ∈ given, s.base.toNat ≤ mappableEnd) (hk : k ∈ misses) : ¬ k.Overreaches := by
  obtain ⟨-, given', misses', hspace, hgiven, hmisses⟩ := h.of_mem_misses hk
  rintro ⟨-, next, hhead, hbehind⟩
  have hmem : next ∈ k.space.sections := by
    rw [← k.space.below_append_above k.addr]
    exact List.mem_append_right _ (List.mem_of_head? hhead)
  rcases hspace.origin next hmem with ⟨s, hs, hplace⟩ | ⟨k', hk', hplace⟩
  · have hle := hlow s (hgiven hs)
    rw [hplace.base] at hbehind
    omega
  · -- a window begins at or below an address that is mapped on demand
    have hmaps := (h.of_mem_misses (hmisses hk')).1
    have hle : k'.window.base.toNat ≤ k'.addr.toNat := toNat_base_window_le hmaps.unmapped
    have hlt := hmaps.mappable
    rw [hplace.base] at hbehind
    omega

/-- If no miss overreached, then nothing but given sections has addresses behind what is mapped on
demand. -/
theorem outOfReach_of_bounded (h : History m given misses)
    (hbounded : ∀ k ∈ misses, ¬ k.Overreaches) (haddr : mappableEnd ≤ addr.toNat)
    (hgiven : ∀ s ∈ given, s.contains addr = false) : m.OutOfReach addr := by
  refine outOfReach_of_forall haddr fun t ht => ?_
  rcases h.origin t ht with ⟨s, hs, hplace⟩ | ⟨k, hk, hplace⟩
  · rw [hplace.contains_eq]
    exact hgiven s hs
  · have hend := (Miss.endAddress_window_le_iff (h.of_mem_misses hk).1).2 (hbounded k hk)
    rw [hplace.contains_eq, ← Bool.not_eq_true, Section.contains_iff]
    omega

/-- **The end of what is mapped on demand.** Every section of a reachable space is where a given
one is or where a window was mapped, and a window has bytes and contains the address that was
missed. A window ends where it should exactly if its miss does not overreach, which none does if
all given sections begin in the part that is mapped on demand. If none does, then an address behind
that part that no given section contains is out of reach. A miss that overreaches makes such an
address readable. -/
theorem windows_bounded_iff (h : History m given misses) :
    (∀ t ∈ m.sections, Originates given misses t) ∧
      (∀ k ∈ misses, k.window.contains k.addr = true ∧ 0 < k.window.size ∧
        (k.window.endAddress ≤ mappableEnd ↔ ¬ k.Overreaches) ∧
        ∀ addr, mappableEnd ≤ addr.toNat → k.window.contains addr = true →
          resultOf (AddressSpace.read addr 1) k.space = .error (.outOfBounds addr 1 .read) ∧
            resultOf (AddressSpace.read addr 1) (k.space.mapWindow k.addr) = .ok [0]) ∧
      ((∀ s ∈ given, s.base.toNat ≤ mappableEnd) → ∀ k ∈ misses, ¬ k.Overreaches) ∧
      ((∀ k ∈ misses, ¬ k.Overreaches) → ∀ addr, mappableEnd ≤ addr.toNat →
        (∀ s ∈ given, s.contains addr = false) → m.OutOfReach addr) := by
  refine ⟨h.origin, fun k hk => ?_, fun hlow k => not_overreaches_of_low h hlow,
    fun hbounded addr => outOfReach_of_bounded h hbounded⟩
  obtain ⟨hmaps, given', misses', hspace, -, -⟩ := h.of_mem_misses hk
  obtain ⟨hc, hpos⟩ := Miss.contains_addr hmaps
  exact ⟨hc, hpos, Miss.endAddress_window_le_iff hmaps,
    fun addr => Miss.opens hspace.reachable.sorted hmaps⟩

end Bounds

/-- A space that maps on demand with data behind the part in which it does. -/
def dataBehind : AddressSpace :=
  (empty true 0x1000).after (.addSection (.zeroed ".data" 0x80001000 16 .data))

theorem history_dataBehind :
    History dataBehind [.zeroed ".data" 0x80001000 16 .data] [] :=
  .call (.empty true 0x1000) (Nat.zero_le _)

/-- The miss of a read near the end. -/
def nearEnd : Miss := ⟨dataBehind, 0x7FFFFFF0⟩

theorem history_nearEnd : History (dataBehind.after (.read 0x7FFFFFF0 4))
    [.zeroed ".data" 0x80001000 16 .data] [nearEnd] :=
  history_dataBehind.call trivial

theorem overreaches_nearEnd : nearEnd.Overreaches :=
  ⟨by decide, _, rfl, by decide⟩

/-- A read near the end maps a window that goes on behind it, up to the data there. -/
theorem windows_bounded_iff_of_nearEnd :
    History (dataBehind.after (.read 0x7FFFFFF0 4)) [.zeroed ".data" 0x80001000 16 .data]
        [nearEnd] ∧
      nearEnd.Overreaches ∧ nearEnd.window.endAddress = 0x80001000 ∧
      ¬ nearEnd.window.endAddress ≤ mappableEnd ∧
      resultOf (AddressSpace.read 0x80000000 1) dataBehind =
        .error (.outOfBounds 0x80000000 1 .read) ∧
      resultOf (AddressSpace.read 0x80000000 1) (dataBehind.mapWindow 0x7FFFFFF0) = .ok [0] := by
  obtain ⟨-, hwindows, -, -⟩ := windows_bounded_iff history_nearEnd
  obtain ⟨-, -, hend, hopens⟩ := hwindows nearEnd (List.mem_singleton_self _)
  obtain ⟨hbefore, hafter⟩ := hopens 0x80000000 (by decide) (by decide)
  exact ⟨history_nearEnd, overreaches_nearEnd, rfl, fun hle => hend.1 hle overreaches_nearEnd,
    hbefore, hafter⟩

/-- Windows do not always end with the part that is mapped on demand, and an address behind it that
nothing handed in contains can become readable. -/
theorem not_windows_bounded :
    (¬ ∀ (m : AddressSpace) (given : List Section) (misses : List Miss), History m given misses →
      ∀ k ∈ misses, k.window.endAddress ≤ mappableEnd) ∧
    ¬ ∀ (m : AddressSpace) (given : List Section) (misses : List Miss), History m given misses →
      ∀ addr : Word, mappableEnd ≤ addr.toNat → (∀ s ∈ given, s.contains addr = false) →
        m.OutOfReach addr := by
  constructor
  · intro hall
    have hend := hall _ _ _ history_nearEnd nearEnd (List.mem_singleton_self _)
    exact absurd hend (by decide)
  · intro hall
    have hreach := hall _ _ _ history_nearEnd 0x80000000 (by decide) (by
      intro s hs
      rw [List.mem_singleton.1 hs]
      decide)
    have hread := hreach.read 1
    have hok : resultOf (AddressSpace.read 0x80000000 1) (dataBehind.after (.read 0x7FFFFFF0 4)) =
        .ok [0] := rfl
    rw [resultOf, hread] at hok
    cases hok

end AddressSpace
end Riscv32
