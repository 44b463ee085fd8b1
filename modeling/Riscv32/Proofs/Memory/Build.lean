import Riscv32.Proofs.Memory.Order

/-!
# Programs that can be built

A program is built by adding sections and labels to an empty one and by placing it. Whatever the
order of these operations, its sections are sorted and keep apart, before and after placement.

## Main definitions

* `Program.Built p`: `p` can be built.
-/
namespace Riscv32

namespace Section

/-- No section overlaps a later one. -/
def Apart (l : List Section) : Prop := l.Pairwise fun s t => s.overlaps t = false

variable {s t : Section} {l : List Section} {base : Word}

theorem Apart.insertByBase (h : Apart l) (hs : ∀ t ∈ l, t.overlaps s = false) :
    Apart (s.insertByBase l) := by
  rw [insertByBase_eq]
  refine pairwise_insert (by rw [List.takeWhile_append_dropWhile]; exact h) ?_ ?_
  · intro t ht
    exact hs t ((List.takeWhile_prefix _).subset ht)
  · intro t ht
    rw [overlaps_comm]
    exact hs t ((List.dropWhile_suffix _).subset ht)

/-- A section moved to a higher address. -/
def moved (base : Word) (s : Section) : Section := { s with base := s.base + base }

@[simp] theorem size_moved (base : Word) (s : Section) : (s.moved base).size = s.size := rfl

/-- A section that fits moves without wrapping around. -/
theorem toNat_base_moved (h : Program.fitsAt base s = true) :
    (s.moved base).base.toNat = s.base.toNat + base.toNat := by
  simp only [Program.fitsAt, Bool.and_eq_true, decide_eq_true_eq] at h
  exact BitVec.toNat_add_of_lt h.1

theorem endAddress_moved (h : Program.fitsAt base s = true) :
    (s.moved base).endAddress = s.endAddress + base.toNat := by
  rw [endAddress, toNat_base_moved h, size_moved, endAddress]
  omega

/-- Moving two sections together does not change whether they overlap. -/
theorem overlaps_moved (hs : Program.fitsAt base s = true) (ht : Program.fitsAt base t = true) :
    (s.moved base).overlaps (t.moved base) = s.overlaps t := by
  simp only [overlaps, toNat_base_moved hs, toNat_base_moved ht, endAddress_moved hs,
    endAddress_moved ht, Nat.add_lt_add_iff_right]

end Section

namespace Program

variable {p q : Program} {s : Section} {base : Word}

/-- The programs that can be built, fixed at a base from the start or not. -/
inductive Built : Program → Prop
  | movable (name : String) : Built { name }
  | fixed (name : String) (base : Word) : Built { name, base := some base }
  | addSection {p q : Program} {s : Section} : Built p → p.addSection s = .ok q → Built q
  | addLabel {p : Program} (name : String) (addr : Word) : Built p → Built (p.addLabel name addr)
  | addAbsoluteLabel {p : Program} (name : String) (addr : Word) :
    Built p → Built (p.addAbsoluteLabel name addr)
  | exportLabel {p : Program} (name : String) : Built p → Built (p.exportLabel name)
  | placeAt {p q : Program} {base : Word} : Built p → p.placeAt base = .ok q → Built q

/-- A section is added under the program's name, and only if nothing overlaps it. -/
theorem addSection_eq_ok (h : p.addSection s = .ok q) :
    (∀ t ∈ p.sections, t.overlaps s = false) ∧
      q.sections = Section.insertByBase { s with owner := p.name } p.sections := by
  unfold addSection at h
  split at h
  case h_1 => cases h
  case h_2 hc =>
    cases h
    exact ⟨(Section.conflict?_eq_none_iff s _).1 hc, rfl⟩

/-- A placed program has the sections it had, or all of them moved by the base, which they fit. -/
theorem placeAt_eq_ok (h : p.placeAt base = .ok q) :
    q.sections = p.sections ∨
      (∀ s ∈ p.sections, fitsAt base s = true) ∧
        q.sections = p.sections.map (Section.moved base) := by
  unfold placeAt at h
  split at h
  case h_1 =>
    split at h
    · cases h
      exact .inl rfl
    · cases h
  case h_2 =>
    split at h
    case h_1 => cases h
    case h_2 hfind =>
      cases h
      refine .inr ⟨?_, rfl⟩
      intro s hs
      simpa using List.find?_eq_none.1 hfind s hs

/-- Placement keeps the sizes of all sections. -/
theorem forall_size_of_placeAt {P : Nat → Prop} (h : p.placeAt base = .ok q)
    (hp : ∀ s ∈ p.sections, P s.size) : ∀ s ∈ q.sections, P s.size := by
  intro s hs
  rcases placeAt_eq_ok h with heq | ⟨-, heq⟩
  · rw [heq] at hs
    exact hp s hs
  · rw [heq, List.mem_map] at hs
    obtain ⟨t, ht, rfl⟩ := hs
    exact hp t ht

private theorem order_of_placeAt (h : p.placeAt base = .ok q)
    (hp : Section.Sorted p.sections ∧ Section.Apart p.sections) :
    Section.Sorted q.sections ∧ Section.Apart q.sections := by
  rcases placeAt_eq_ok h with heq | ⟨hfit, heq⟩
  · rw [heq]
    exact hp
  · rw [heq]
    constructor
    · refine List.pairwise_map.2 (hp.1.imp_of_mem ?_)
      intro s t hs ht hst
      rw [Section.toNat_base_moved (hfit s hs), Section.toNat_base_moved (hfit t ht)]
      exact Nat.add_le_add_right hst _
    · refine List.pairwise_map.2 (hp.2.imp_of_mem ?_)
      intro s t hs ht hst
      rw [Section.overlaps_moved (hfit s hs) (hfit t ht)]
      exact hst

/-- The sections of a program are sorted and keep apart however it was built. -/
theorem Built.order (h : Built p) : Section.Sorted p.sections ∧ Section.Apart p.sections := by
  induction h with
  | movable name => exact ⟨List.Pairwise.nil, List.Pairwise.nil⟩
  | fixed name base => exact ⟨List.Pairwise.nil, List.Pairwise.nil⟩
  | addSection _ hadd ih =>
    obtain ⟨hs, heq⟩ := addSection_eq_ok hadd
    rw [heq]
    exact ⟨ih.1.insertByBase _, ih.2.insertByBase hs⟩
  | addLabel _ _ _ ih => exact ih
  | addAbsoluteLabel _ _ _ ih => exact ih
  | exportLabel _ _ ih => exact ih
  | placeAt _ hplace ih => exact order_of_placeAt hplace ih

end Program
end Riscv32
