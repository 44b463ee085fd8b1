import Riscv32.Proofs.Memory.Reachable

/-!
# Empty sections

An empty section contains no address, yet it takes part in the search by base: it is found in
place of a section that begins where it lies, if it was put in after that section. The search
then stops at the empty section and finds nothing. Apart from that an empty section is not seen,
and in no other way does the search miss a section.

## Main definitions

* `AddressSpace.Shadows base m m'` — the search in `m'` misses the sections that begin at `base`
  and otherwise agrees with the search in `m`.

## Main statements

* `AddressSpace.shadows_insertSection`, the search after an empty section was put in.
* `AddressSpace.search_of_empty_section`, all three ways of putting one in, with the exact
  condition under which it is not seen.
* `AddressSpace.emptyAt_of_missed`, what hides a section.
-/
namespace Riscv32.AddressSpace

variable {m m' : AddressSpace} {addr base : Word} {s t : Section}

/-- The search in `m'` finds what it finds in `m`, except sections that begin at `base`. -/
def Shadows (base : Word) (m m' : AddressSpace) : Prop :=
  ∀ addr, m'.sectionFor? addr = (m.sectionFor? addr).filter fun t => t.base ≠ base

/-- A section that is put in does not change what begins below it. -/
theorem below_insertSection_of_lt (hm : Section.Sorted m.sections) (h : addr < s.base) :
    (m.insertSection s).below addr = m.below addr := by
  have hs : ¬ s.base ≤ addr := BitVec.not_le.2 h
  have hbetween : m.between s.base addr = [] := by
    rw [List.eq_nil_iff_forall_not_mem]
    intro t ht
    have hlt := lt_base_of_mem_between hm ht
    have hle : t.base.toNat ≤ addr.toNat := Section.base_le_of_mem_takeWhile ht
    rw [BitVec.lt_def] at h
    omega
  have hold : m.below addr =
      (m.below s.base ++ m.above s.base).takeWhile fun t => decide (t.base ≤ addr) := by
    rw [below_append_above]
    rfl
  have hnil : ((s :: m.above s.base).takeWhile fun t => decide (t.base ≤ addr)) = [] := by
    rw [List.takeWhile_cons, decide_eq_false hs]
    rfl
  rw [between] at hbetween
  rw [hold, below, sections_insertSection, List.takeWhile_append, List.takeWhile_append, hbetween,
    hnil]

/-- A section that lies in another one without overlapping it begins where the other begins. -/
theorem base_eq_of_contains (hs : t.overlaps s = false) (hle : t.base.toNat ≤ s.base.toNat)
    (hend : s.base.toNat < t.endAddress) : t.base = s.base := by
  have hbase := Section.base_le_endAddress s
  rw [Section.overlaps_eq_false_iff] at hs
  exact BitVec.eq_of_toNat_eq (by omega)

theorem not_contains_of_empty (hempty : s.size = 0) (addr : Word) : s.contains addr = false := by
  rw [← Bool.not_eq_true, Section.contains_iff, Section.endAddress, hempty]
  omega

private theorem filter_eq_self {o : Option Section} {p : Section → Bool}
    (h : ∀ t, o = some t → p t = true) : o.filter p = o := by
  cases o with
  | none => rfl
  | some t => exact Option.filter_some_pos (h t rfl)

/-- Put into sorted sections, one that nothing overlaps hides from the addresses outside of it what
begins where it lies, and nothing else. -/
theorem sectionFor?_insertSection (hm : Section.Sorted m.sections)
    (hs : ∀ t ∈ m.sections, t.overlaps s = false) (hout : s.contains addr = false) :
    (m.insertSection s).sectionFor? addr =
      (m.sectionFor? addr).filter fun t => t.base ≠ s.base := by
  symm
  by_cases hle : s.base ≤ addr
  · rw [sectionFor?, sectionFor?, below_insertSection_of_le hle, below_eq_append hle,
      List.getLast?_append, List.getLast?_append, List.getLast?_cons]
    cases hlast : (m.between s.base addr).getLast? with
    | none =>
      -- the new section is the last one and does not contain the address
      have hnew : (some s).filter (·.contains addr) = none := by simp [hout]
      simp only [Option.none_or, Option.getD_none, Option.some_or, hnew]
      rw [Option.filter_eq_none_iff]
      intro t ht hne
      obtain ⟨htlast, hc⟩ := Option.filter_eq_some_iff.1 ht
      have hmem := List.mem_of_getLast? htlast
      rw [Section.contains_iff] at hc
      rw [BitVec.le_def] at hle
      exact of_decide_eq_true hne (base_eq_of_contains
        (hs t ((List.takeWhile_prefix _).subset hmem)) (Section.base_le_of_mem_takeWhile hmem)
        (by omega))
    | some t =>
      have hlt := lt_base_of_mem_between hm (List.mem_of_getLast? hlast)
      have hne : t.base ≠ s.base := by
        intro heq
        rw [heq] at hlt
        omega
      simp only [Option.some_or, Option.getD_some]
      refine filter_eq_self ?_
      intro u hu
      rw [Option.filter_eq_some_iff, Option.some.injEq] at hu
      rw [← hu.1]
      exact decide_eq_true hne
  · have hlt : addr < s.base := BitVec.not_le.1 hle
    rw [sectionFor?, sectionFor?, below_insertSection_of_lt hm hlt]
    refine filter_eq_self ?_
    intro t ht
    have hbase := Section.base_le_of_mem_takeWhile
      (List.mem_of_getLast? (Option.filter_eq_some_iff.1 ht).1)
    have hne : t.base ≠ s.base := by
      intro heq
      rw [heq] at hbase
      rw [BitVec.lt_def] at hlt
      omega
    exact decide_eq_true hne

/-- An empty section hides what begins where it lies from all addresses. -/
theorem shadows_insertSection (hm : Section.Sorted m.sections)
    (hs : ∀ t ∈ m.sections, t.overlaps s = false) (hempty : s.size = 0) :
    Shadows s.base m (m.insertSection s) :=
  fun addr => sectionFor?_insertSection hm hs (not_contains_of_empty hempty addr)

/-- An empty section is not seen exactly if nothing answered for the address where it lies. -/
theorem sectionFor?_insertSection_eq_iff (hm : Section.Sorted m.sections)
    (hs : ∀ t ∈ m.sections, t.overlaps s = false) (hempty : s.size = 0) :
    (∀ addr, (m.insertSection s).sectionFor? addr = m.sectionFor? addr) ↔
      m.sectionFor? s.base = none := by
  have hshadows := shadows_insertSection hm hs hempty
  constructor
  · intro hsame
    by_contra hne
    obtain ⟨t, ht⟩ := Option.ne_none_iff_exists'.1 hne
    have hfilter := (hshadows s.base).symm.trans (hsame s.base)
    rw [ht, Option.filter_some_eq_some, decide_eq_true_eq] at hfilter
    obtain ⟨hmem, hc⟩ := mem_of_sectionFor? ht
    obtain ⟨hle, hend⟩ := (Section.contains_iff t s.base).1 hc
    exact hfilter (base_eq_of_contains (hs t hmem) hle hend)
  · intro hnone addr
    rw [hshadows addr]
    refine filter_eq_self ?_
    intro t ht
    refine decide_eq_true ?_
    intro heq
    obtain ⟨hlast, hc⟩ := Option.filter_eq_some_iff.1 ht
    obtain ⟨hle, hend⟩ := (Section.contains_iff t addr).1 hc
    rw [heq] at hle
    rw [below_eq_append (BitVec.le_def.2 hle), List.getLast?_append] at hlast
    cases hbetween : (m.between s.base addr).getLast? with
    | some u =>
      rw [hbetween, Option.some_or, Option.some.injEq] at hlast
      have hlt := lt_base_of_mem_between hm (List.mem_of_getLast? hbetween)
      rw [hlast, heq] at hlt
      omega
    | none =>
      rw [hbetween, Option.none_or] at hlast
      have hbase : t.contains s.base = true := by
        rw [Section.contains_iff, heq]
        omega
      have hsome : m.sectionFor? s.base = some t := Option.filter_eq_some_iff.2 ⟨hlast, hbase⟩
      rw [hsome] at hnone
      cases hnone

/-! ## Reachable spaces -/

/-- The effect of an empty section at `base`: it hides what begins there, and so it is not seen
exactly if nothing answered for `base`. -/
def ShadowsOnly (base : Word) (m m' : AddressSpace) : Prop :=
  Shadows base m m' ∧
    ((∀ addr, m'.sectionFor? addr = m.sectionFor? addr) ↔ m.sectionFor? base = none)

theorem shadowsOnly_insertSection (hm : Section.Sorted m.sections)
    (hs : ∀ t ∈ m.sections, t.overlaps s = false) (hempty : s.size = 0) :
    ShadowsOnly s.base m (m.insertSection s) :=
  ⟨shadows_insertSection hm hs hempty, sectionFor?_insertSection_eq_iff hm hs hempty⟩

theorem insertAll_append (m : AddressSpace) (front : List Section) (s : Section) :
    m.insertAll (front ++ [s]) = (m.insertAll front).insertSection s := by
  simp [insertAll, insertSection]

/-- Sections that keep apart hide from the addresses outside of all of them what begins where one
of them lies. The order in which they are put in does not matter. -/
theorem sectionFor?_insertAll {new : List Section} (hm : Section.Sorted m.sections)
    (hapart : Section.Apart new) (hs : ∀ s ∈ new, ∀ t ∈ m.sections, t.overlaps s = false)
    (hout : ∀ s ∈ new, s.contains addr = false) :
    (m.insertAll new).sectionFor? addr =
      (m.sectionFor? addr).filter fun t => ∀ s ∈ new, t.base ≠ s.base := by
  induction new generalizing m with
  | nil => exact (filter_eq_self fun t _ => by simp).symm
  | cons s rest ih =>
    obtain ⟨hfirst, hrest⟩ := List.pairwise_cons.1 hapart
    obtain ⟨hsfirst, hsrest⟩ := List.forall_mem_cons.1 hs
    obtain ⟨houtfirst, houtrest⟩ := List.forall_mem_cons.1 hout
    have hapart' : ∀ u ∈ rest, ∀ t ∈ (m.insertSection s).sections, t.overlaps u = false := by
      intro u hu t ht
      rcases Section.mem_insertByBase.1 ht with rfl | ht
      · exact hfirst u hu
      · exact hsrest u hu t ht
    have hstep := ih (m := m.insertSection s) (hm.insertByBase s) hrest hapart' houtrest
    change ((m.insertSection s).insertAll rest).sectionFor? addr = _
    rw [hstep, sectionFor?_insertSection hm hsfirst houtfirst, Option.filter_filter]
    congr 1
    funext t
    simp

/-- An empty section among those that a load puts in. -/
theorem shadowsOnly_insertAll {front back : List Section} (hm : Section.Sorted m.sections)
    (hapart : Section.Apart (front ++ s :: back))
    (hs : ∀ t ∈ m.sections, t.overlaps s = false) (hempty : s.size = 0) :
    ShadowsOnly s.base (m.insertAll front) (m.insertAll (front ++ [s])) := by
  rw [insertAll_append]
  refine shadowsOnly_insertSection (sorted_insertAll hm front) ?_ hempty
  intro t ht
  rcases mem_insertAll ht with ht | ht
  · exact (List.pairwise_append.1 hapart).2.2 t ht s (List.mem_cons_self ..)
  · exact hs t ht

/-- An empty section that a reachable space takes in, whether it is added, allocated or one of
those that a program brings along, hides the section that begins where it lies, and is not seen
exactly if there is none. -/
theorem search_of_empty_section (h : Reachable 0 m) :
    (∀ s m', s.size = 0 → m.addSection s = .ok m' → ShadowsOnly s.base m m') ∧
      (∀ name permissions base m', m.allocate name 0 permissions = .ok (base, m') →
        ShadowsOnly base m m') ∧
      ∀ p requested base m', p.Built → m.load p requested = .ok (base, m') →
        ∃ q, p.placeAt base = .ok q ∧ m'.sections = (m.insertAll q.sections).sections ∧
          ∀ front s back, q.sections = front ++ s :: back → s.size = 0 →
            ShadowsOnly s.base (m.insertAll front) (m.insertAll (front ++ [s])) := by
  have hm := h.sorted
  refine ⟨?_, ?_, ?_⟩
  · intro s m' hempty hadd
    obtain ⟨hs, rfl⟩ := addSection_eq_ok hadd
    exact shadowsOnly_insertSection hm hs hempty
  · intro name permissions base m' halloc
    obtain ⟨s, rfl, hempty, hs, rfl⟩ := allocate_eq_ok hm halloc
    exact shadowsOnly_insertSection hm hs hempty
  · intro p requested base m' hbuilt hload
    obtain ⟨q, hplace, hrefuse, rfl⟩ := load_eq_ok hload
    refine ⟨q, hplace, rfl, ?_⟩
    intro front s back hq hempty
    have hapart := (hbuilt.placeAt hplace).order.2
    rw [hq] at hapart
    exact shadowsOnly_insertAll hm hapart (refusal?_eq_none hrefuse s (by simp [hq])) hempty

/-! ## Sections that are missed -/

/-- An empty section lies at an address. -/
def EmptyAt (m : AddressSpace) (base : Word) : Prop := ∃ e ∈ m.sections, e.size = 0 ∧ e.base = base

/-- Each section ends before later ones begin, unless an empty section lies where it begins. -/
def Covered (m : AddressSpace) : Prop :=
  m.sections.Pairwise fun s t => s.endAddress ≤ t.base.toNat ∨ m.EmptyAt s.base

/-- Edits remove no section, and so no empty one. -/
theorem Edit.emptyAt {least : Nat} (h : Edit least m m') (hempty : m.EmptyAt base) :
    m'.EmptyAt base := by
  obtain ⟨e, he, hsize, hbase⟩ := hempty
  cases h with
  | insert s _ _ h => exact ⟨e, by rw [h]; exact Section.mem_insertByBase.2 (.inr he), hsize, hbase⟩
  | map addr _ _ h =>
    rw [← m.below_append_above addr, List.mem_append] at he
    refine ⟨e, ?_, hsize, hbase⟩
    rw [h, List.mem_append, List.mem_cons]
    exact he.imp_right .inr
  | replace front s t back hs hb hz h =>
    rw [hs, List.mem_append, List.mem_cons] at he
    rcases he with he | rfl | he
    · exact ⟨e, by simp [h, he], hsize, hbase⟩
    · exact ⟨t, by simp [h], by rw [hz, hsize], by rw [hb, hbase]⟩
    · exact ⟨e, by simp [h, he], hsize, hbase⟩
  | keep h => exact ⟨e, by rw [h]; exact he, hsize, hbase⟩

theorem Edit.covered {least : Nat} (h : Edit least m m') (hsorted : Section.Sorted m.sections)
    (hm : m.Covered) : m'.Covered := by
  have hold := hm.imp fun {_ _} hst => hst.imp_right h.emptyAt
  cases h with
  | insert s hsize hs h =>
    have hnew : s ∈ m'.sections := by
      rw [h]
      exact Section.mem_insertByBase.2 (.inl rfl)
    rw [Covered, h, Section.insertByBase_eq]
    refine Section.pairwise_insert (by rw [List.takeWhile_append_dropWhile]; exact hold) ?_ ?_
    · intro t ht
      have hle : t.base.toNat ≤ s.base.toNat := Section.base_le_of_mem_takeWhile ht
      by_cases hend : t.endAddress ≤ s.base.toNat
      · exact .inl hend
      · have hapart := hs t ((List.takeWhile_prefix _).subset ht)
        have hbase := base_eq_of_contains hapart hle (Nat.lt_of_not_le hend)
        rw [Section.overlaps_eq_false_iff, Section.endAddress, hbase] at hapart
        exact .inr ⟨s, hnew, by omega, hbase.symm⟩
    · intro t ht
      have hlt := Section.lt_base_of_mem_dropWhile hsorted ht
      have hend := Section.base_le_endAddress t
      have hapart := hs t ((List.dropWhile_suffix _).subset ht)
      rw [Section.overlaps_eq_false_iff] at hapart
      exact .inl (by omega)
  | map addr hs ha h =>
    obtain ⟨-, hbelow, habove⟩ := window_spec hs ha
    rw [← m.below_append_above addr] at hold
    obtain ⟨hfront, -, -⟩ := List.pairwise_append.1 hold
    rw [Covered, h]
    refine Section.pairwise_insert hold ?_ ?_
    · intro t ht
      obtain ⟨last, hlast⟩ := Option.isSome_iff_exists.1
        (List.getLast?_isSome.2 (List.ne_nil_of_mem ht))
      obtain ⟨init, hinit⟩ := List.getLast?_eq_some_iff.1 hlast
      have hend := hbelow last hlast
      rw [hinit] at ht hfront
      rcases List.mem_append.1 ht with ht | ht
      · refine ((List.pairwise_append.1 hfront).2.2 t ht last List.mem_cons_self).imp_left ?_
        exact fun hle => hle.trans ((Section.base_le_endAddress last).trans hend)
      · rw [List.mem_singleton.1 ht]
        exact .inl hend
    · intro t ht
      refine .inl (Section.forall_mem_of_head? (hsorted.sublist (List.dropWhile_sublist _))
        habove ?_ t ht)
      exact fun _ _ hst hle => hle.trans hst
  | replace front s t back hs hb hz h =>
    rw [hs] at hold
    have hend : t.endAddress = s.endAddress := by
      rw [Section.endAddress, hb, hz, Section.endAddress]
    rw [Covered, h]
    exact Section.pairwise_replace hold (fun _ hu => hb ▸ hu) (fun _ hu => hend ▸ hb ▸ hu)
  | keep h =>
    rw [Covered, h]
    exact hold

theorem Edits.covered {least : Nat} (h : Edits least m m') (hsorted : Section.Sorted m.sections)
    (hm : m.Covered) : m'.Covered := by
  induction h with
  | refl => exact hm
  | tail hfirst he ih => exact he.covered (Edits.sorted hfirst hsorted) ih

theorem Reachable.covered {least : Nat} (h : Reachable least m) : m.Covered := by
  induction h with
  | empty => exact List.Pairwise.nil
  | call hreach hc ih => exact (edits_after hreach.sorted hc).covered hreach.sorted ih

/-- A section that contains an address for which nothing answers is hidden by an empty one. -/
theorem emptyAt_of_missed {least : Nat} (h : Reachable least m) (hnone : m.sectionFor? addr = none)
    (hs : s ∈ m.sections) (hc : s.contains addr = true) : m.EmptyAt s.base := by
  have hbelow := mem_below_of_contains h.sorted hs hc
  obtain ⟨last, hlast⟩ := Option.isSome_iff_exists.1
    (List.getLast?_isSome.2 (List.ne_nil_of_mem hbelow))
  obtain ⟨init, hinit⟩ := List.getLast?_eq_some_iff.1 hlast
  have hbase : last.base.toNat ≤ addr.toNat :=
    Section.base_le_of_mem_takeWhile (l := m.sections) (List.mem_of_getLast? hlast)
  have hcovered := h.covered.sublist (List.takeWhile_sublist fun t => decide (t.base ≤ addr))
  change (m.below addr).Pairwise _ at hcovered
  rw [hinit, List.mem_append, List.mem_singleton] at hbelow
  rw [hinit] at hcovered
  rcases hbelow with hfront | rfl
  · rcases (List.pairwise_append.1 hcovered).2.2 s hfront last List.mem_cons_self with hend | hempty
    · have hlt := ((Section.contains_iff s addr).1 hc).2
      omega
    · exact hempty
  · have hfound : m.sectionFor? addr = some s := Option.filter_eq_some_iff.2 ⟨hlast, hc⟩
    rw [hfound] at hnone
    cases hnone

/-- A space with sixteen bytes of data. -/
def sixteenBytes : AddressSpace :=
  (empty false 0x1000).after (.addSection (.zeroed ".data" 0x1000 16 .data))

theorem reachable_sixteenBytes : Reachable 0 sixteenBytes :=
  .call (.empty false 0x1000) (Nat.zero_le _)

/-- An empty section without variables. -/
def emptyBss (base : Word) : Section := .zeroed ".bss" base 0 .data

/-- Behind the data an empty section is not seen, and at its beginning it hides the data. -/
theorem search_of_emptyBss :
    Reachable 0 sixteenBytes ∧
      sixteenBytes.addSection (emptyBss 0x1010) =
        .ok (sixteenBytes.insertSection (emptyBss 0x1010)) ∧
      (∀ addr, (sixteenBytes.insertSection (emptyBss 0x1010)).sectionFor? addr =
        sixteenBytes.sectionFor? addr) ∧
      ¬ ∀ addr, (sixteenBytes.insertSection (emptyBss 0x1000)).sectionFor? addr =
        sixteenBytes.sectionFor? addr := by
  have hsearch := (search_of_empty_section reachable_sixteenBytes).1
  refine ⟨reachable_sixteenBytes, rfl, ?_, ?_⟩
  · exact (hsearch (emptyBss 0x1010) _ rfl rfl).2.2 rfl
  · intro hsame
    have hnone := (hsearch (emptyBss 0x1000) _ rfl rfl).2.1 hsame
    cases hnone

/-- An empty section can hide data: it is not true of all of them that they are not seen. -/
theorem not_search_unchanged_of_empty_section :
    ¬ ∀ m s m', Reachable 0 m → s.size = 0 → m.addSection s = .ok m' →
      ∀ addr, m'.sectionFor? addr = m.sectionFor? addr := by
  intro hall
  have hsame := hall sixteenBytes (emptyBss 0x1000) _ reachable_sixteenBytes rfl rfl 0x1004
  have hsome : (sixteenBytes.sectionFor? 0x1004).isSome = true := rfl
  rw [← hsame] at hsome
  cases hsome

end Riscv32.AddressSpace
