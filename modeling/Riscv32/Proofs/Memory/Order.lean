import Mathlib.Data.List.TakeWhile
import Riscv32.Memory.Placement

/-!
# Sections in order

The sections of an address space are searched by base, which finds the right one only while they
are ordered. There are two notions of order. In a *sorted* list no base lies below an earlier
one. In a *separated* list each section, moreover, ends before the next begins. A separated list
of sections that have bytes gives every address at most one section, and the search finds it.

An empty section may share its base with another section and so sorts without being separated:
all that holds of it is that nothing overlaps it.

## Main statements

* `Section.Separated.insertByBase`, the order after a section was put in.
* `Section.Separated.replace`, the order after the contents of a section changed.
* `AddressSpace.sectionFor?_eq_some_iff`, the search in a separated list.
-/
namespace Riscv32

namespace Section

variable {s t : Section} {l front back : List Section} {addr : Word}

/-- No base lies below an earlier one. -/
def Sorted (l : List Section) : Prop := l.Pairwise fun s t => s.base.toNat ≤ t.base.toNat

/-- Every section ends before the next one begins. -/
def Separated (l : List Section) : Prop := l.Pairwise fun s t => s.endAddress ≤ t.base.toNat

theorem base_le_endAddress (s : Section) : s.base.toNat ≤ s.endAddress := Nat.le_add_right _ _

/-- Two sections keep apart if one of them ends before the other begins. So an empty section
keeps apart from any section that it does not lie strictly inside of. -/
theorem overlaps_eq_false_iff (s t : Section) :
    s.overlaps t = false ↔ t.endAddress ≤ s.base.toNat ∨ s.endAddress ≤ t.base.toNat := by
  rw [overlaps, Bool.and_eq_false_iff, decide_eq_false_iff_not, decide_eq_false_iff_not,
    Nat.not_lt, Nat.not_lt]

theorem conflict?_eq_none_iff (s : Section) (others : List Section) :
    s.conflict? others = none ↔ ∀ t ∈ others, t.overlaps s = false := by
  simp [conflict?, List.find?_eq_none]

/-- A separated list is sorted. -/
theorem Separated.sorted (h : Separated l) : Sorted l :=
  h.imp fun hst => le_trans (base_le_endAddress _) hst

/-! ## The two parts of a list at an address -/

theorem base_le_of_mem_takeWhile (h : t ∈ l.takeWhile fun s => decide (s.base ≤ addr)) :
    t.base.toNat ≤ addr.toNat := by
  have hle := List.mem_takeWhile_imp h
  exact BitVec.le_def.1 (of_decide_eq_true hle)

/-- In a sorted list every section behind the first one above an address lies above it. -/
theorem lt_base_of_mem_dropWhile (hl : Sorted l)
    (h : t ∈ l.dropWhile fun s => decide (s.base ≤ addr)) : addr.toNat < t.base.toNat := by
  induction l with
  | nil => simp at h
  | cons u us ih =>
    obtain ⟨hu, hus⟩ := List.pairwise_cons.1 hl
    rw [List.dropWhile_cons] at h
    by_cases hle : u.base ≤ addr
    · rw [if_pos (decide_eq_true hle)] at h
      exact ih hus h
    · rw [if_neg (by simp [hle])] at h
      have hlt : addr.toNat < u.base.toNat := by rw [BitVec.le_def] at hle; omega
      rcases List.mem_cons.1 h with rfl | h
      · exact hlt
      · exact lt_of_lt_of_le hlt (hu t h)

/-- A section goes between those whose base is not above its own and those whose base is. -/
theorem insertByBase_eq (s : Section) (l : List Section) :
    s.insertByBase l = (l.takeWhile fun t => decide (t.base ≤ s.base)) ++
      s :: l.dropWhile fun t => decide (t.base ≤ s.base) := by
  induction l with
  | nil => rfl
  | cons u us ih =>
    by_cases h : u.base ≤ s.base
    · simp [insertByBase, h, ih]
    · simp [insertByBase, h]

/-! ## Order after a change -/

/-- What holds of the last section and passes on to whatever comes before holds of all. -/
theorem forall_mem_of_getLast? {R : Section → Section → Prop} {P : Section → Prop}
    (h : l.Pairwise R) (hlast : ∀ s, l.getLast? = some s → P s)
    (hP : ∀ t s, R t s → P s → P t) : ∀ t ∈ l, P t := by
  intro t ht
  obtain ⟨s, hs⟩ := Option.isSome_iff_exists.1 (List.getLast?_isSome.2 (List.ne_nil_of_mem ht))
  obtain ⟨init, rfl⟩ := List.getLast?_eq_some_iff.1 hs
  rcases List.mem_append.1 ht with ht | ht
  · exact hP t s ((List.pairwise_append.1 h).2.2 t ht s (List.mem_singleton_self s)) (hlast s hs)
  · rw [List.mem_singleton.1 ht]
    exact hlast s hs

/-- What holds of the first section and passes on to whatever comes after holds of all. -/
theorem forall_mem_of_head? {R : Section → Section → Prop} {P : Section → Prop}
    (h : l.Pairwise R) (hfirst : ∀ s, l.head? = some s → P s)
    (hP : ∀ s t, R s t → P s → P t) : ∀ t ∈ l, P t := by
  intro t ht
  cases l with
  | nil => simp at ht
  | cons s rest =>
    rcases List.mem_cons.1 ht with rfl | ht
    · exact hfirst t rfl
    · exact hP s t ((List.pairwise_cons.1 h).1 t ht) (hfirst s rfl)

/-- A list stays ordered in any sense if the new element is in order with both parts. -/
theorem pairwise_insert {R : Section → Section → Prop} (h : (front ++ back).Pairwise R)
    (hf : ∀ t ∈ front, R t s) (hb : ∀ t ∈ back, R s t) : (front ++ s :: back).Pairwise R := by
  obtain ⟨hfront, hback, hcross⟩ := List.pairwise_append.1 h
  refine List.pairwise_append.2 ⟨hfront, List.pairwise_cons.2 ⟨hb, hback⟩, ?_⟩
  intro t ht u hu
  rcases List.mem_cons.1 hu with rfl | hu
  · exact hf t ht
  · exact hcross t ht u hu

/-- A list stays ordered in any sense if an element gives way to one that is in order with
whatever the old one was in order with. -/
theorem pairwise_replace {R : Section → Section → Prop} (h : (front ++ s :: back).Pairwise R)
    (hf : ∀ u, R u s → R u t) (hb : ∀ u, R s u → R t u) : (front ++ t :: back).Pairwise R := by
  obtain ⟨hfront, hsback, hcross⟩ := List.pairwise_append.1 h
  obtain ⟨hs, hback⟩ := List.pairwise_cons.1 hsback
  have hnew := List.pairwise_cons.2 ⟨fun u hu => hb u (hs u hu), hback⟩
  refine List.pairwise_append.2 ⟨hfront, hnew, ?_⟩
  intro u hu v hv
  rcases List.mem_cons.1 hv with rfl | hv
  · exact hf u (hcross u hu s (List.mem_cons_self ..))
  · exact hcross u hu v (List.mem_cons_of_mem _ hv)

theorem Sorted.insertByBase (h : Sorted l) (s : Section) : Sorted (s.insertByBase l) := by
  rw [insertByBase_eq]
  refine pairwise_insert (by rw [List.takeWhile_append_dropWhile]; exact h) ?_ ?_
  · intro t ht
    exact base_le_of_mem_takeWhile ht
  · intro t ht
    exact le_of_lt (lt_base_of_mem_dropWhile h ht)

/-- Sections that have bytes stay separated if one is put in that overlaps none of them. -/
theorem Separated.insertByBase (h : Separated l) (hpos : ∀ t ∈ s :: l, 0 < t.size)
    (hs : ∀ t ∈ l, t.overlaps s = false) : Separated (s.insertByBase l) := by
  have hsep : ∀ t ∈ l, s.endAddress ≤ t.base.toNat ∨ t.endAddress ≤ s.base.toNat := by
    intro t ht
    exact (overlaps_eq_false_iff t s).1 (hs t ht)
  have hend : ∀ t ∈ s :: l, t.base.toNat < t.endAddress := by
    intro t ht
    exact Nat.lt_add_of_pos_right (hpos t ht)
  have hsend := hend s (List.mem_cons_self ..)
  rw [insertByBase_eq]
  refine pairwise_insert (by rw [List.takeWhile_append_dropWhile]; exact h) ?_ ?_
  · intro t ht
    have hle := base_le_of_mem_takeWhile ht
    have hmem : t ∈ l := (List.takeWhile_prefix _).subset ht
    rcases hsep t hmem with hst | hts
    · omega
    · exact hts
  · intro t ht
    have hlt := lt_base_of_mem_dropWhile h.sorted ht
    have hmem : t ∈ l := (List.dropWhile_suffix _).subset ht
    have htend := hend t (List.mem_cons_of_mem _ hmem)
    rcases hsep t hmem with hst | hts
    · exact hst
    · omega

theorem Sorted.replace (h : Sorted (front ++ s :: back)) (hb : t.base = s.base) :
    Sorted (front ++ t :: back) :=
  pairwise_replace h (fun _ hu => hb ▸ hu) (fun _ hu => hb ▸ hu)

/-- Sections stay separated if one of them changes without changing its place. -/
theorem Separated.replace (h : Separated (front ++ s :: back)) (hb : t.base = s.base)
    (he : t.endAddress = s.endAddress) : Separated (front ++ t :: back) :=
  pairwise_replace h (fun _ hu => hb ▸ hu) (fun _ hu => he ▸ hu)

end Section

namespace AddressSpace

variable {m : AddressSpace} {addr base : Word} {s t : Section}

/-! ## The sections between two addresses -/

/-- The sections with bases above one address and not above another. -/
def between (m : AddressSpace) (base addr : Word) : List Section :=
  (m.above base).takeWhile fun s => decide (s.base ≤ addr)

theorem lt_base_of_mem_between (hm : Section.Sorted m.sections) (ht : t ∈ m.between base addr) :
    base.toNat < t.base.toNat :=
  Section.lt_base_of_mem_dropWhile hm ((List.takeWhile_prefix _).subset ht)

/-- What begins at or below one address also begins at or below a higher one. -/
theorem below_le_of_le (h : base ≤ addr) : ∀ t ∈ m.below base, decide (t.base ≤ addr) = true := by
  intro t ht
  have hle : t.base.toNat ≤ base.toNat := Section.base_le_of_mem_takeWhile ht
  rw [BitVec.le_def] at h
  exact decide_eq_true (BitVec.le_def.2 (le_trans hle h))

theorem below_eq_append (h : base ≤ addr) : m.below addr = m.below base ++ m.between base addr := by
  have hsplit : m.below addr =
      (m.below base ++ m.above base).takeWhile fun s => decide (s.base ≤ addr) := by
    rw [below_append_above]
    rfl
  rw [hsplit, List.takeWhile_append_of_pos (below_le_of_le h)]
  rfl

theorem sections_insertSection (m : AddressSpace) (s : Section) :
    (m.insertSection s).sections = m.below s.base ++ s :: m.above s.base :=
  Section.insertByBase_eq s m.sections

theorem above_eq_append (h : base ≤ addr) : m.above base = m.between base addr ++ m.above addr := by
  have hsplit : m.below base ++ m.above base =
      m.below base ++ (m.between base addr ++ m.above addr) := by
    rw [below_append_above, ← List.append_assoc, ← below_eq_append h, below_append_above]
  exact List.append_cancel_left hsplit

theorem below_insertSection_of_le (h : s.base ≤ addr) :
    (m.insertSection s).below addr = m.below s.base ++ s :: m.between s.base addr := by
  rw [below, sections_insertSection, List.takeWhile_append_of_pos (below_le_of_le h),
    List.takeWhile_cons, if_pos (decide_eq_true h)]
  rfl

theorem above_insertSection_of_le (h : s.base ≤ addr) :
    (m.insertSection s).above addr = m.above addr := by
  have hold : m.above addr =
      (m.below s.base ++ m.above s.base).dropWhile fun t => decide (t.base ≤ addr) := by
    rw [below_append_above]
    rfl
  rw [hold, above, sections_insertSection, List.dropWhile_append_of_pos (below_le_of_le h),
    List.dropWhile_append_of_pos (below_le_of_le h), List.dropWhile_cons,
    if_pos (decide_eq_true h)]

/-! ## The search -/

theorem sectionFor?_congr {m' : AddressSpace} (h : m'.sections = m.sections) (a : Word) :
    m'.sectionFor? a = m.sectionFor? a := by
  rw [sectionFor?, below, h]
  rfl

/-- A section of an ordered list that contains an address is not above it. -/
theorem mem_below_of_contains (hm : Section.Sorted m.sections) (hs : s ∈ m.sections)
    (hc : s.contains addr = true) : s ∈ m.below addr := by
  rw [← m.below_append_above addr] at hs
  rcases List.mem_append.1 hs with hs | hs
  · exact hs
  · have hlt := Section.lt_base_of_mem_dropWhile hm hs
    have hle := ((Section.contains_iff s addr).1 hc).1
    omega

/-- The search by base finds exactly the section that contains the address. -/
theorem sectionFor?_eq_some_iff (hm : Section.Separated m.sections) :
    m.sectionFor? addr = some s ↔ s ∈ m.sections ∧ s.contains addr = true := by
  constructor
  · exact mem_of_sectionFor?
  · rintro ⟨hs, hc⟩
    have hbelow := mem_below_of_contains hm.sorted hs hc
    obtain ⟨t, ht⟩ := Option.isSome_iff_exists.1
      (List.getLast?_isSome.2 (List.ne_nil_of_mem hbelow))
    obtain ⟨init, hinit⟩ := List.getLast?_eq_some_iff.1 ht
    rw [hinit, List.mem_append, List.mem_singleton] at hbelow
    rcases hbelow with hbelow | rfl
    · have hpair : Section.Separated (m.below addr) := hm.sublist (List.takeWhile_sublist _)
      rw [hinit] at hpair
      have hst := (List.pairwise_append.1 hpair).2.2 s hbelow t (List.mem_singleton_self t)
      have hta : t.base.toNat ≤ addr.toNat :=
        Section.base_le_of_mem_takeWhile (l := m.sections) (List.mem_of_getLast? ht)
      have hsa := ((Section.contains_iff s addr).1 hc).2
      omega
    · exact Option.filter_eq_some_iff.2 ⟨ht, hc⟩

end AddressSpace
end Riscv32
