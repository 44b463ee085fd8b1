import Mathlib.Logic.Relation
import Riscv32.Proofs.Memory.Access
import Riscv32.Proofs.Memory.Build

/-!
# Reachable address spaces

An address space is reachable if calls lead to it from an empty one. A call changes the list of
sections by few kinds of edits: a section that nothing overlaps is put in by its base, a window
is mapped around an address without a section, or a section changes its contents in place. All
that is true of every reachable space is proved for each edit, and holds after every call by
induction.

## Main definitions

* `AddressSpace.Call`, `AddressSpace.after` — the calls and the space that a call leaves.
* `AddressSpace.Reachable least m` — calls that bring in sections of at least `least` bytes lead
  to `m`.
* `AddressSpace.Edit` — the kinds of edits.
* `AddressSpace.Tidy` — the invariant of spaces without empty sections.

## Main statements

* `AddressSpace.edits_after`, what a call does to the list of sections.
* `AddressSpace.after_cases`, what it does beside that.
* `AddressSpace.Reachable.sorted`, `AddressSpace.Reachable.tidy`, the invariants.
* `AddressSpace.sections_of_reachable`, order and search in a reachable space.
-/
namespace Riscv32

namespace AddressSpace

variable {m m' : AddressSpace} {addr : Word} {least : Nat}

/-- A call of an address space. -/
inductive Call
  | addSection (s : Section)
  | load (p : Program) (requested : Option Word)
  | allocate (name : String) (size : Nat) (permissions : Permissions)
  | read (addr : Word) (size : Nat)
  | write (addr : Word) (data : List Byte)
  | fetch (addr : Word)

/-- The space that a call leaves. A failed placement leaves the space alone. -/
def after (m : AddressSpace) : Call → AddressSpace
  | .addSection s => (m.addSection s).toOption.getD m
  | .load p requested => ((m.load p requested).toOption.map Prod.snd).getD m
  | .allocate name size permissions =>
    ((m.allocate name size permissions).toOption.map Prod.snd).getD m
  | .read addr size => stateAfter (AddressSpace.read addr size) m
  | .write addr data => stateAfter (AddressSpace.write addr data) m
  | .fetch addr => stateAfter (AddressSpace.fetch addr) m

/-- Whether a call can be made and brings in only sections of at least `least` bytes. -/
def Call.Brings (least : Nat) : Call → Prop
  | .addSection s => least ≤ s.size
  | .load p _ => p.Built ∧ ∀ s ∈ p.sections, least ≤ s.size
  | .allocate _ size _ => least ≤ size
  | .read _ _ | .write _ _ | .fetch _ => True

/-- The spaces that calls lead to from an empty one, if every section that is handed in or
allocated has at least `least` bytes. -/
inductive Reachable (least : Nat) : AddressSpace → Prop
  | empty (lazyMapping : Bool) (loadAlignment : Nat) :
    Reachable least (.empty lazyMapping loadAlignment)
  | call {m : AddressSpace} {c : Call} : Reachable least m → c.Brings least →
    Reachable least (m.after c)

/-! ## Edits -/

/-- One edit of the list of sections; `least` bounds the size of a section that is put in. -/
inductive Edit (least : Nat) (m m' : AddressSpace) : Prop
  | insert (s : Section) (hsize : least ≤ s.size) (hs : ∀ t ∈ m.sections, t.overlaps s = false)
    (h : m'.sections = s.insertByBase m.sections)
  | map (addr : Word) (hs : m.sectionFor? addr = none) (ha : addr.toNat < mappableEnd)
    (h : m'.sections = m.below addr ++ m.window addr :: m.above addr)
  | replace (front : List Section) (s t : Section) (back : List Section)
    (hs : m.sections = front ++ s :: back) (hb : t.base = s.base) (hz : t.size = s.size)
    (h : m'.sections = front ++ t :: back)
  | keep (h : m'.sections = m.sections)

/-- Edits one after the other. -/
def Edits (least : Nat) : AddressSpace → AddressSpace → Prop := Relation.ReflTransGen (Edit least)

theorem Edit.edits (h : Edit least m m') : Edits least m m' := .single h

theorem Serves.edits (h : Serves addr m m') : Edits least m m' := by
  cases h with
  | found => exact .refl
  | mapped hs _ ha => exact (Edit.map addr hs ha rfl).edits

/-- The space with several sections put in one after the other. -/
def insertAll (m : AddressSpace) (new : List Section) : AddressSpace :=
  { m with sections := new.foldl (fun all s => s.insertByBase all) m.sections }

theorem sorted_insertAll (hm : Section.Sorted m.sections) (new : List Section) :
    Section.Sorted (m.insertAll new).sections := by
  induction new generalizing m with
  | nil => exact hm
  | cons s rest ih => exact ih (m := m.insertSection s) (hm.insertByBase s)

theorem mem_insertAll {new : List Section} {t : Section} (ht : t ∈ (m.insertAll new).sections) :
    t ∈ new ∨ t ∈ m.sections := by
  induction new generalizing m with
  | nil => exact .inr ht
  | cons s rest ih =>
    rcases ih (m := m.insertSection s) ht with hrest | hm
    · exact .inl (List.mem_cons_of_mem _ hrest)
    · rcases Section.mem_insertByBase.1 hm with rfl | hm
      · exact .inl (List.mem_cons_self ..)
      · exact .inr hm

/-- A list of sections that keep apart goes in one by one if nothing overlaps any of them. -/
theorem edits_insertAll (new : List Section) (hsize : ∀ s ∈ new, least ≤ s.size)
    (hapart : Section.Apart new) (hm : ∀ s ∈ new, ∀ t ∈ m.sections, t.overlaps s = false) :
    Edits least m (m.insertAll new) := by
  induction new generalizing m with
  | nil => exact .refl
  | cons s rest ih =>
    obtain ⟨hs, hrest⟩ := List.pairwise_cons.1 hapart
    have hfirst : Edit least m (m.insertSection s) :=
      .insert s (hsize s (List.mem_cons_self ..)) (hm s (List.mem_cons_self ..)) rfl
    refine .head hfirst (ih (fun t ht => hsize t (List.mem_cons_of_mem _ ht)) hrest ?_)
    intro t ht u hu
    rcases Section.mem_insertByBase.1 hu with rfl | hu
    · exact hs t ht
    · exact hm t (List.mem_cons_of_mem _ ht) u hu

theorem addSection_eq_ok {s : Section} (h : m.addSection s = .ok m') :
    (∀ t ∈ m.sections, t.overlaps s = false) ∧ m' = m.insertSection s := by
  unfold addSection at h
  split at h
  case h_1 => cases h
  case h_2 hc =>
    cases h
    exact ⟨(Section.conflict?_eq_none_iff s _).1 hc, rfl⟩

theorem refusal?_eq_none {p : Program} (h : m.refusal? p = none) :
    ∀ s ∈ p.sections, ∀ t ∈ m.sections, t.overlaps s = false := by
  intro s hs
  rw [refusal?, Option.or_eq_none_iff, List.findSome?_eq_none_iff] at h
  exact (Section.conflict?_eq_none_iff s _).1 (h.1 s hs)

section Load

variable {p q : Program} {requested : Option Word} {base : Word} {e : PlacementError}

theorem load_of_chooseBase_error (h : m.chooseBase p requested = .error e) :
    m.load p requested = .error e := by
  simp [load, h, bind, Except.bind]

theorem load_of_placeAt_error (hbase : m.chooseBase p requested = .ok base)
    (h : p.placeAt base = .error e) : m.load p requested = .error e := by
  simp [load, hbase, h, bind, Except.bind]

theorem load_of_refusal (hbase : m.chooseBase p requested = .ok base)
    (hplace : p.placeAt base = .ok q) (h : m.refusal? q = some e) :
    m.load p requested = .error e := by
  simp [load, hbase, hplace, h, bind, Except.bind, throw, throwThe, MonadExceptOf.throw]

theorem load_of_placed (hbase : m.chooseBase p requested = .ok base)
    (hplace : p.placeAt base = .ok q) (h : m.refusal? q = none) :
    m.load p requested = .ok (base, m.withProgram q base) := by
  simp [load, hbase, hplace, h, bind, Except.bind, pure, Except.pure]

/-- A load chooses a base, places the program there and takes it in. -/
theorem load_eq_ok_iff : m.load p requested = .ok (base, m') ↔
    m.chooseBase p requested = .ok base ∧
      ∃ q, p.placeAt base = .ok q ∧ m.refusal? q = none ∧ m' = m.withProgram q base := by
  constructor
  · intro h
    cases hbase : m.chooseBase p requested with
    | error e =>
      rw [load_of_chooseBase_error hbase] at h
      cases h
    | ok b =>
      cases hplace : p.placeAt b with
      | error e =>
        rw [load_of_placeAt_error hbase hplace] at h
        cases h
      | ok q =>
        cases hrefuse : m.refusal? q with
        | some e =>
          rw [load_of_refusal hbase hplace hrefuse] at h
          cases h
        | none =>
          rw [load_of_placed hbase hplace hrefuse] at h
          cases h
          exact ⟨rfl, q, hplace, hrefuse, rfl⟩
  · rintro ⟨hbase, q, hplace, hrefuse, rfl⟩
    exact load_of_placed hbase hplace hrefuse

theorem load_eq_ok (h : m.load p requested = .ok (base, m')) :
    ∃ q, p.placeAt base = .ok q ∧ m.refusal? q = none ∧ m' = m.withProgram q base :=
  (load_eq_ok_iff.1 h).2

end Load

/-- In sorted sections the first gap keeps off every one of them. -/
theorem firstGap_spec {l : List Section} (hl : Section.Sorted l) (size cursor : Nat) :
    cursor ≤ firstGap size cursor l ∧ ∀ s ∈ l, s.endAddress ≤ firstGap size cursor l ∨
      firstGap size cursor l + size ≤ s.base.toNat := by
  induction l generalizing cursor with
  | nil => exact ⟨le_refl _, by simp⟩
  | cons s rest ih =>
    obtain ⟨hs, hrest⟩ := List.pairwise_cons.1 hl
    rw [firstGap]
    split
    case isTrue hgap =>
      refine ⟨le_refl _, ?_⟩
      intro t ht
      rcases List.mem_cons.1 ht with rfl | ht
      · exact .inr hgap
      · exact .inr (le_trans hgap (hs t ht))
    case isFalse =>
      obtain ⟨hle, hkeep⟩ := ih hrest (max cursor (alignUp s.endAddress windowAlignment))
      have hup : s.endAddress ≤ alignUp s.endAddress windowAlignment := le_alignUp _ (by decide)
      refine ⟨le_trans (le_max_left _ _) hle, ?_⟩
      intro t ht
      rcases List.mem_cons.1 ht with rfl | ht
      · exact .inl (le_trans (le_trans hup (le_max_right _ _)) hle)
      · exact hkeep t ht

/-- An allocation in sorted sections puts in a section of the size asked for that nothing
overlaps. -/
theorem allocate_eq_ok {name : String} {size : Nat} {permissions : Permissions} {base : Word}
    (hm : Section.Sorted m.sections) (h : m.allocate name size permissions = .ok (base, m')) :
    ∃ s : Section, s.base = base ∧ s.size = size ∧ (∀ t ∈ m.sections, t.overlaps s = false) ∧
      m' = m.insertSection s := by
  obtain ⟨-, hgap⟩ := firstGap_spec hm size m.loadAlignment
  simp only [allocate] at h
  generalize firstGap size m.loadAlignment m.sections = start at h hgap
  split at h
  case isTrue => cases h
  case isFalse hfit =>
    cases h
    have hend : mappableEnd = 0x7FFFFFFF := rfl
    have hstart : (BitVec.ofNat 32 start).toNat = start := by
      rw [BitVec.toNat_ofNat]
      exact Nat.mod_eq_of_lt (by omega)
    refine ⟨{ Section.zeroed name (BitVec.ofNat 32 start) size permissions with
      owner := systemOwner }, rfl, rfl, ?_, rfl⟩
    intro t ht
    rw [Section.overlaps_eq_false_iff, Section.endAddress]
    change (BitVec.ofNat 32 start).toNat + size ≤ _ ∨ _ ≤ (BitVec.ofNat 32 start).toNat
    rw [hstart]
    exact (hgap t ht).symm

/-! ## Calls as edits -/

theorem edits_load {p : Program} {requested : Option Word} {base : Word}
    (hp : (Call.load p requested).Brings least) (h : m.load p requested = .ok (base, m')) :
    Edits least m m' := by
  obtain ⟨hbuilt, hsize⟩ := hp
  obtain ⟨q, hplace, hrefuse, rfl⟩ := load_eq_ok h
  have hsizes := Program.forall_size_of_placeAt hplace hsize
  have hinsert : Edits least m (m.insertAll q.sections) :=
    edits_insertAll q.sections hsizes (hbuilt.placeAt hplace).order.2 (refusal?_eq_none hrefuse)
  exact hinsert.tail (.keep rfl)

/-- What a call does to the sections of a sorted space. -/
theorem edits_after {c : Call} (hm : Section.Sorted m.sections) (hc : c.Brings least) :
    Edits least m (m.after c) := by
  cases c with
  | addSection s =>
    simp only [after]
    cases h : m.addSection s with
    | error e => exact .refl
    | ok m' =>
      obtain ⟨hs, rfl⟩ := addSection_eq_ok h
      exact (Edit.insert s hc hs rfl).edits
  | load p requested =>
    simp only [after]
    cases h : m.load p requested with
    | error e => exact .refl
    | ok r => exact edits_load hc h
  | allocate name size permissions =>
    simp only [after]
    cases h : m.allocate name size permissions with
    | error e => exact .refl
    | ok r =>
      obtain ⟨s, -, hsize, hs, heq⟩ := allocate_eq_ok hm h
      change Edits least m r.2
      rw [heq]
      exact (Edit.insert s (hsize ▸ hc) hs rfl).edits
  | read addr size =>
    simp only [after, stateAfter]
    split
    case h_1 h => exact (read_eq_ok h).1.edits
    case h_2 h => exact (read_eq_error h).edits
  | write addr data =>
    simp only [after, stateAfter]
    split
    case h_1 h =>
      obtain ⟨m₁, front, s, t, back, hserves, hs, -, hwrite, heq⟩ := write_eq_ok h
      obtain ⟨hb, hz⟩ := Section.size_eq_of_write hwrite
      exact hserves.edits.tail (.replace front s t back hs hb hz (heq ▸ rfl))
    case h_2 h => exact (write_eq_error h).edits
  | fetch addr =>
    simp only [after, stateAfter]
    split
    case h_1 h =>
      obtain ⟨m₁, front, s, t, back, hserves, hs, -, hfetch, heq⟩ := fetch_eq_ok h
      obtain ⟨hb, hz⟩ := Section.size_eq_of_fetch hfetch
      exact hserves.edits.tail (.replace front s t back hs hb hz (heq ▸ rfl))
    case h_2 h => exact (fetch_eq_error h).edits

theorem Serves.eq_with_sections (h : Serves addr m m') : ∃ sections, m' = { m with sections } := by
  cases h with
  | found => exact ⟨_, rfl⟩
  | mapped => exact ⟨_, rfl⟩

/-- A call that is no load changes nothing but the sections. -/
theorem eq_with_sections_after {c : Call} (m : AddressSpace)
    (hc : ∀ p requested, c ≠ .load p requested) : ∃ sections, m.after c = { m with sections } := by
  cases c with
  | load p requested => exact absurd rfl (hc p requested)
  | addSection s =>
    simp only [after]
    cases h : m.addSection s with
    | error e => exact ⟨_, rfl⟩
    | ok m' =>
      obtain ⟨-, rfl⟩ := addSection_eq_ok h
      exact ⟨_, rfl⟩
  | allocate name size permissions =>
    simp only [after, allocate]
    split
    · exact ⟨_, rfl⟩
    · exact ⟨_, rfl⟩
  | read addr size =>
    simp only [after, stateAfter]
    split
    case h_1 h => exact (read_eq_ok h).1.eq_with_sections
    case h_2 h => exact (read_eq_error h).eq_with_sections
  | write addr data =>
    simp only [after, stateAfter]
    split
    case h_1 h =>
      obtain ⟨m₁, front, s, t, back, hserves, -, -, -, rfl⟩ := write_eq_ok h
      obtain ⟨sections, rfl⟩ := hserves.eq_with_sections
      exact ⟨_, rfl⟩
    case h_2 h => exact (write_eq_error h).eq_with_sections
  | fetch addr =>
    simp only [after, stateAfter]
    split
    case h_1 h =>
      obtain ⟨m₁, front, s, t, back, hserves, -, -, -, rfl⟩ := fetch_eq_ok h
      obtain ⟨sections, rfl⟩ := hserves.eq_with_sections
      exact ⟨_, rfl⟩
    case h_2 h => exact (fetch_eq_error h).eq_with_sections

/-- A call loads a program, or it changes nothing but the sections. -/
theorem after_cases (m : AddressSpace) (c : Call) :
    (∃ p requested base q, c = .load p requested ∧ p.placeAt base = .ok q ∧
      m.load p requested = .ok (base, m.withProgram q base)) ∨
      (∀ p requested, c = .load p requested → ∃ e, m.load p requested = .error e) ∧
        ∃ sections, m.after c = { m with sections } := by
  by_cases hc : ∃ p requested, c = .load p requested
  · obtain ⟨p, requested, rfl⟩ := hc
    cases h : m.load p requested with
    | error e =>
      refine .inr ⟨?_, m.sections, by simp [after, h, Except.toOption]⟩
      rintro _ _ ⟨⟩
      exact ⟨e, h⟩
    | ok r =>
      obtain ⟨base, m'⟩ := r
      obtain ⟨q, hplace, -, rfl⟩ := load_eq_ok h
      exact .inl ⟨p, requested, base, q, rfl, hplace, h⟩
  · simp only [not_exists] at hc
    exact .inr ⟨fun p requested h => absurd h (hc p requested), eq_with_sections_after m hc⟩

/-! ## Invariants -/

/-- Sections that have bytes and end before the next one begins. -/
structure Tidy (m : AddressSpace) : Prop where
  size_pos : ∀ s ∈ m.sections, 0 < s.size
  separated : Section.Separated m.sections

/-- The window around an unmapped address keeps off all sections of a separated list. -/
theorem separated_mapWindow (hm : Section.Separated m.sections)
    (hs : m.sectionFor? addr = none) (ha : addr.toNat < mappableEnd) :
    Section.Separated (m.below addr ++ m.window addr :: m.above addr) := by
  obtain ⟨-, hbelow, habove⟩ := window_spec hs ha
  rw [← m.below_append_above addr] at hm
  obtain ⟨hfront, hback, -⟩ := List.pairwise_append.1 hm
  refine Section.pairwise_insert hm ?_ ?_
  · refine Section.forall_mem_of_getLast? hfront hbelow ?_
    intro t last htl hle
    have hbase := Section.base_le_endAddress last
    omega
  · refine Section.forall_mem_of_head? hback habove ?_
    intro first t hft hle
    have hbase := Section.base_le_endAddress first
    omega

/-- The window lies between the sections below its address and those above, by their bases. -/
theorem sorted_mapWindow (hm : Section.Sorted m.sections)
    (hs : m.sectionFor? addr = none) (ha : addr.toNat < mappableEnd) :
    Section.Sorted (m.below addr ++ m.window addr :: m.above addr) := by
  obtain ⟨hc, hbelow, -⟩ := window_spec hs ha
  have hle := ((Section.contains_iff _ _).1 hc).1
  refine Section.pairwise_insert (by rw [below_append_above]; exact hm) ?_ ?_
  · refine Section.forall_mem_of_getLast? (hm.sublist (List.takeWhile_sublist _)) ?_ ?_
    · intro last hlast
      exact le_trans (Section.base_le_endAddress last) (hbelow last hlast)
    · intro t last htl hbase
      exact le_trans htl hbase
  · intro t ht
    have hlt := Section.lt_base_of_mem_dropWhile hm ht
    omega

theorem Edit.sorted (h : Edit least m m') (hm : Section.Sorted m.sections) :
    Section.Sorted m'.sections := by
  cases h with
  | insert s _ _ h => rw [h]; exact hm.insertByBase s
  | map addr hs ha h => rw [h]; exact sorted_mapWindow hm hs ha
  | replace front s t back hs hb _ h =>
    rw [hs] at hm
    rw [h]
    exact hm.replace hb
  | keep h => rw [h]; exact hm

/-- The window around an unmapped address has bytes: it contains the address. -/
theorem size_window_pos (hs : m.sectionFor? addr = none) (ha : addr.toNat < mappableEnd) :
    0 < (m.window addr).size := by
  have hc := (Section.contains_iff _ _).1 (window_spec hs ha).1
  rw [Section.endAddress] at hc
  omega

theorem Edit.tidy (h : Edit 1 m m') (hm : m.Tidy) : m'.Tidy := by
  cases h with
  | insert s hsize hs h =>
    have hpos : ∀ t ∈ s :: m.sections, 0 < t.size := by
      intro t ht
      rcases List.mem_cons.1 ht with rfl | ht
      · exact hsize
      · exact hm.size_pos t ht
    refine ⟨?_, by rw [h]; exact hm.separated.insertByBase hpos hs⟩
    intro t ht
    rw [h, Section.mem_insertByBase] at ht
    exact hpos t (List.mem_cons.2 ht)
  | map addr hs ha h =>
    refine ⟨?_, by rw [h]; exact separated_mapWindow hm.separated hs ha⟩
    intro t ht
    rw [h, List.mem_append, List.mem_cons, or_left_comm, ← List.mem_append,
      below_append_above] at ht
    rcases ht with rfl | ht
    · exact size_window_pos hs ha
    · exact hm.size_pos t ht
  | replace front s t back hs hb hz h =>
    obtain ⟨hpos, hsep⟩ := hm
    rw [hs] at hpos hsep
    have he : t.endAddress = s.endAddress := by rw [Section.endAddress, hb, hz, Section.endAddress]
    refine ⟨?_, by rw [h]; exact hsep.replace hb he⟩
    intro u hu
    rw [h] at hu
    rcases List.mem_append.1 hu with hu | hu
    · exact hpos u (List.mem_append_left _ hu)
    · rcases List.mem_cons.1 hu with rfl | hu
      · rw [hz]
        exact hpos s (by simp)
      · exact hpos u (by simp [hu])
  | keep h =>
    obtain ⟨hpos, hsep⟩ := hm
    exact ⟨by rw [h]; exact hpos, by rw [h]; exact hsep⟩

theorem Edits.sorted (h : Edits least m m') (hm : Section.Sorted m.sections) :
    Section.Sorted m'.sections := by
  induction h with
  | refl => exact hm
  | tail _ he ih => exact he.sorted ih

theorem Edits.tidy (h : Edits 1 m m') (hm : m.Tidy) : m'.Tidy := by
  induction h with
  | refl => exact hm
  | tail _ he ih => exact he.tidy ih

/-- No call puts the sections out of order. -/
theorem Reachable.sorted (h : Reachable least m) : Section.Sorted m.sections := by
  induction h with
  | empty => exact List.Pairwise.nil
  | call _ hc ih => exact (edits_after ih hc).sorted ih

/-- No call that brings in only sections with bytes makes two sections meet. -/
theorem Reachable.tidy (h : Reachable 1 m) : m.Tidy := by
  induction h with
  | empty => exact ⟨by simp [AddressSpace.empty], List.Pairwise.nil⟩
  | call _ hc ih => exact (edits_after ih.separated.sorted hc).tidy ih

/-- The sections of a space that was never given an empty one are in strictly ascending order of
their bases, each ends before the next begins, and the search finds the one section that contains
an address, if there is one. -/
theorem sections_of_reachable (h : Reachable 1 m) :
    (m.sections.Pairwise fun s t => s.base < t.base) ∧
      (m.sections.Pairwise fun s t => s.endAddress ≤ t.base.toNat) ∧
      ∀ (addr : Word) (s : Section),
        m.sectionFor? addr = some s ↔ s ∈ m.sections ∧ s.contains addr = true := by
  obtain ⟨hpos, hsep⟩ := h.tidy
  refine ⟨?_, hsep, fun addr s => sectionFor?_eq_some_iff hsep⟩
  refine hsep.imp_of_mem ?_
  intro s t hs _ hst
  have hlt : s.base.toNat < s.endAddress := Nat.lt_add_of_pos_right (hpos s hs)
  rw [BitVec.lt_def]
  omega

/-- A space with one section of data, after a read below it mapped a window up to it. -/
def windowBelowData : AddressSpace :=
  ((empty true 0x1000).after (.addSection (.zeroed ".data" 0x8000 16 .data))).after (.read 0x5000 4)

theorem reachable_windowBelowData : Reachable 1 windowBelowData :=
  .call (.call (.empty true 0x1000) (Nat.le_add_left 1 15)) trivial

theorem sections_of_windowBelowData :
    Reachable 1 windowBelowData ∧
      windowBelowData.sections.map (fun s => (s.name, s.base, s.size)) =
        [(".empty", 0x0, 0x8000), (".data", 0x8000, 16)] ∧
      (windowBelowData.sections.Pairwise fun s t => s.endAddress ≤ t.base.toNat) :=
  ⟨reachable_windowBelowData, rfl, (sections_of_reachable reachable_windowBelowData).2.1⟩

end AddressSpace
end Riscv32
