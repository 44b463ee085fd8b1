import Riscv32.Proofs.Memory.Reachable

/-!
# Windows

In a space that maps on demand, an access to an address without a section maps a window of zeros
around it. The window lies in the gap around the address, which it fills in part or as a whole.
Whatever answered for an address before still does, so the reads that can tell the difference are
those in the same gap: for them the gap has become smaller.

A read is served by one section. Where a read alone maps a window that holds all of its bytes, the
same read after another one may begin in the window of the first and end behind it, or begin below
that window and end in it. Then it fails. No aligned read does so, because a window ends at the end
of its gap or at a multiple of sixteen.

## Main definitions

* `AddressSpace.Maps addr` — an access to `addr` maps a window.
* `AddressSpace.Severs first addr size` — the window of `first` has an edge inside of a span.

## Main statements

* `AddressSpace.sectionFor?_mapWindow_eq`, the search after a window was mapped, in any space.
* `AddressSpace.gapEnd_mapWindow`, the gaps after a window was mapped, in sorted sections.
* `AddressSpace.resultOf_read_of_unmapped`, a read in a gap.
* `AddressSpace.read_after_read`, a read with and without another one before it.
-/
namespace Riscv32

namespace AddressSpace

variable {m : AddressSpace} {addr first a : Word} {s t : Section} {size : Nat}

/-! ## The search -/

/-- An access to the address maps a window. -/
structure Maps (m : AddressSpace) (addr : Word) : Prop where
  onDemand : m.lazyMapping = true
  unmapped : m.sectionFor? addr = none
  mappable : addr.toNat < mappableEnd

instance (m : AddressSpace) (addr : Word) : Decidable (m.Maps addr) :=
  decidable_of_iff
    (m.lazyMapping = true ∧ (m.sectionFor? addr).isNone = true ∧ addr.toNat < mappableEnd)
    ⟨fun h => ⟨h.1, Option.isNone_iff_eq_none.1 h.2.1, h.2.2⟩,
      fun h => ⟨h.onDemand, Option.isNone_iff_eq_none.2 h.unmapped, h.mappable⟩⟩

theorem resolve_of_mapped (h : m.sectionFor? addr = some s) (size : Nat) (access : AccessKind) :
    m.resolve addr size access = .ok ((m.below addr).length - 1, s, m) := by
  rw [resolve, locate?_eq_some_iff.2 ⟨h, rfl⟩]

theorem resolve_of_maps (h : m.Maps addr) (size : Nat) (access : AccessKind) :
    m.resolve addr size access = .ok ((m.below addr).length, m.window addr, m.mapWindow addr) := by
  have hcond : (m.lazyMapping && decide (addr.toNat < mappableEnd)) = true := by
    rw [h.onDemand, decide_eq_true h.mappable]
    rfl
  rw [resolve, locate?_eq_none_iff.2 h.unmapped]
  exact if_pos hcond

theorem resolve_of_not_maps (h : m.sectionFor? addr = none) (hmaps : ¬ m.Maps addr) (size : Nat)
    (access : AccessKind) :
    m.resolve addr size access = .error (.outOfBounds addr size access) := by
  have hcond : ¬ (m.lazyMapping && decide (addr.toNat < mappableEnd)) = true := by
    rw [Bool.and_eq_true, decide_eq_true_eq]
    exact fun hboth => hmaps ⟨hboth.1, h, hboth.2⟩
  rw [resolve, locate?_eq_none_iff.2 h]
  exact if_neg hcond

/-- The sections not above an address, after a window was mapped. -/
theorem below_mapWindow (hs : m.sectionFor? addr = none) (haddr : addr.toNat < mappableEnd)
    (a : Word) :
    (m.mapWindow addr).below a = m.below a ∨
      (m.window addr).base ≤ a ∧ ∃ back, m.below a = m.below addr ++ back ∧
        (m.mapWindow addr).below a = m.below addr ++ m.window addr :: back := by
  obtain ⟨hcontains, -, hnext⟩ := window_spec hs haddr
  let notAbove := fun s : Section => decide (s.base ≤ a)
  have hold : m.below a = (m.below addr ++ m.above addr).takeWhile notAbove := by
    rw [below_append_above]
    rfl
  have hnew : (m.mapWindow addr).below a
      = (m.below addr ++ m.window addr :: m.above addr).takeWhile notAbove := rfl
  rw [hold, hnew, List.takeWhile_append, List.takeWhile_append]
  by_cases hfront : ((m.below addr).takeWhile notAbove).length = (m.below addr).length
  · rw [if_pos hfront, if_pos hfront]
    by_cases hbase : (m.window addr).base ≤ a
    · rw [List.takeWhile_cons, if_pos (decide_eq_true hbase)]
      exact .inr ⟨hbase, _, rfl, rfl⟩
    · left
      rw [List.takeWhile_cons, if_neg (by simpa [notAbove] using hbase)]
      cases habove : m.above addr with
      | nil => rfl
      | cons t rest =>
        -- the next section begins behind the window, which itself begins above `a`
        have hlt := hnext t (by rw [habove]; rfl)
        have hin := (Section.contains_iff _ _).1 hcontains
        have hnot : ¬ t.base ≤ a := by
          rw [BitVec.le_def] at hbase ⊢
          omega
        rw [List.takeWhile_cons, if_neg (by simpa [notAbove] using hnot)]
  · rw [if_neg hfront, if_neg hfront]
    exact .inl rfl

/-- A window changes what answers for an address only if nothing did before. -/
theorem sectionFor?_mapWindow_eq (hs : m.sectionFor? addr = none)
    (haddr : addr.toNat < mappableEnd) (a : Word) :
    (m.mapWindow addr).sectionFor? a = m.sectionFor? a ∨
      m.sectionFor? a = none ∧ (m.mapWindow addr).sectionFor? a = some (m.window addr) ∧
        (m.window addr).contains a = true := by
  obtain ⟨-, hprev, -⟩ := window_spec hs haddr
  rcases below_mapWindow hs haddr a with hsame | ⟨hbase, back, hold, hnew⟩
  · left
    rw [sectionFor?, sectionFor?, hsame]
  cases hback : back.getLast? with
  | some t =>
    left
    rw [sectionFor?, sectionFor?, hold, hnew, List.getLast?_append, List.getLast?_append,
      List.getLast?_cons, hback]
    rfl
  | none =>
    -- the window comes last; the section below it ends before `a`
    obtain rfl := List.getLast?_eq_none_iff.1 hback
    rw [List.append_nil] at hold
    have hnone : m.sectionFor? a = none := by
      rw [sectionFor?, hold]
      cases hlast : (m.below addr).getLast? with
      | none => rfl
      | some t =>
        have hend := hprev t hlast
        have hout : t.contains a ≠ true := by
          rw [ne_eq, Section.contains_iff]
          rw [BitVec.le_def] at hbase
          omega
        rw [Option.filter_some, if_neg hout]
    have hlast : (m.mapWindow addr).sectionFor? a
        = (some (m.window addr)).filter (·.contains a) := by
      rw [sectionFor?, hnew, List.getLast?_append, List.getLast?_singleton, Option.some_or]
    rw [hnone, hlast, Option.filter_some]
    by_cases ha : (m.window addr).contains a = true
    · exact .inr ⟨rfl, if_pos ha, ha⟩
    · exact .inl (if_neg ha)

/-! ## Gaps -/

/-- In sorted sections a gap ends at or below whatever begins above its start. -/
theorem gapEnd_le (hm : Section.Sorted m.sections) (ht : t ∈ m.sections)
    (h : a.toNat < t.base.toNat) : m.gapEnd a ≤ t.base.toNat := by
  rw [← m.below_append_above a] at ht
  rcases List.mem_append.1 ht with ht | ht
  · have hle := Section.base_le_of_mem_takeWhile ht
    omega
  · rw [gapEnd]
    cases habove : m.above a with
    | nil => simp [habove] at ht
    | cons u us =>
      have hsorted : Section.Sorted (m.above a) := hm.sublist (List.dropWhile_sublist _)
      rw [habove] at ht hsorted
      rcases List.mem_cons.1 ht with rfl | ht
      · exact le_refl _
      · exact (List.pairwise_cons.1 hsorted).1 t ht

/-- Nothing begins between two addresses of a gap. -/
theorem between_eq_nil (hm : Section.Sorted m.sections) (h : addr.toNat < m.gapEnd a) :
    m.between a addr = [] := by
  rw [List.eq_nil_iff_forall_not_mem]
  intro t ht
  have hlt := lt_base_of_mem_between hm ht
  have hle : t.base.toNat ≤ addr.toNat := Section.base_le_of_mem_takeWhile ht
  have hmem : t ∈ m.sections := by
    rw [← m.below_append_above a]
    exact List.mem_append_right _ ((List.takeWhile_prefix _).subset ht)
  have hgap := gapEnd_le hm hmem hlt
  omega

/-- Two addresses with nothing that begins between them have the same sections to either side. -/
theorem sides_eq_of_between (h : a ≤ addr) (hnil : m.between a addr = []) :
    m.below a = m.below addr ∧ m.above a = m.above addr := by
  rw [below_eq_append h, above_eq_append h, hnil, List.append_nil, List.nil_append]
  exact ⟨rfl, rfl⟩

/-- A section that is put in ends the gaps that it begins in. -/
theorem gapEnd_insertSection_of_lt (h : addr < s.base) (hs : s.base.toNat ≤ mappableEnd) :
    (m.insertSection s).gapEnd addr = min (m.gapEnd addr) s.base.toNat := by
  let notAbove := fun t : Section => decide (t.base ≤ addr)
  have hnot : ∀ t : Section, s.base.toNat ≤ t.base.toNat → notAbove t = false := by
    intro t ht
    rw [BitVec.lt_def] at h
    exact decide_eq_false (by rw [BitVec.le_def]; omega)
  have hnew : (m.insertSection s).above addr = (m.below s.base ++ s :: m.above s.base).dropWhile
      notAbove := by
    rw [above, sections_insertSection]
  have hold : m.above addr = (m.below s.base ++ m.above s.base).dropWhile notAbove := by
    rw [below_append_above]
    rfl
  have hrest : (m.above s.base).dropWhile notAbove = m.above s.base := by
    cases habove : m.above s.base with
    | nil => rfl
    | cons t rest =>
      have hhead : (m.above s.base).head? = some t := by rw [habove]; rfl
      have hlt := lt_base_of_head?_above hhead
      exact List.dropWhile_cons_of_neg (by simp [hnot t (le_of_lt hlt)])
  rw [gapEnd, gapEnd, hnew, hold, List.dropWhile_append, List.dropWhile_append]
  cases hfront : (m.below s.base).dropWhile notAbove with
  | nil =>
    -- everything up to the new section begins at or below the address
    rw [List.dropWhile_cons_of_neg (by simp [hnot s (le_refl _)]), hrest]
    have hend : s.base.toNat ≤ m.gapEnd s.base := by
      rw [gapEnd]
      cases hhead : (m.above s.base).head? with
      | none => exact hs
      | some t => exact le_of_lt (lt_base_of_head?_above hhead)
    exact (min_eq_right hend).symm
  | cons t rest =>
    have hmem : t ∈ m.below s.base :=
      (List.dropWhile_suffix notAbove).subset (by rw [hfront]; exact List.mem_cons_self ..)
    have hle : t.base.toNat ≤ s.base.toNat := Section.base_le_of_mem_takeWhile hmem
    exact (min_eq_left hle).symm

/-! ## The gap around a window -/

/-- Nothing begins inside of a window. -/
theorem outside_window (hm : Section.Sorted m.sections) (h : m.Maps first) (ht : t ∈ m.sections) :
    t.base.toNat ≤ (m.window first).base.toNat ∨
      (m.window first).endAddress ≤ t.base.toNat := by
  obtain ⟨-, hbelow, habove⟩ := window_spec h.unmapped h.mappable
  rw [← m.below_append_above first] at ht hm
  obtain ⟨hfront, hback, -⟩ := List.pairwise_append.1 hm
  rcases List.mem_append.1 ht with ht | ht
  · left
    refine Section.forall_mem_of_getLast? hfront ?_ (fun _ _ => le_trans) t ht
    intro last hlast
    exact le_trans (Section.base_le_endAddress last) (hbelow last hlast)
  · right
    exact Section.forall_mem_of_head? hback habove (fun _ _ hst hs => le_trans hs hst) t ht

/-- All addresses of a window lie in the gap that it begins in. -/
theorem between_window (hm : Section.Sorted m.sections) (h : m.Maps first)
    (ha : a.toNat < (m.window first).endAddress) : m.between (m.window first).base a = [] := by
  rw [List.eq_nil_iff_forall_not_mem]
  intro t ht
  have hlt := lt_base_of_mem_between hm ht
  have hle : t.base.toNat ≤ a.toNat := Section.base_le_of_mem_takeWhile ht
  have hmem : t ∈ m.sections := by
    rw [← m.below_append_above (m.window first).base]
    exact List.mem_append_right _ ((List.takeWhile_prefix _).subset ht)
  rcases outside_window hm h hmem with hout | hout
  · omega
  · omega

/-- The sections to either side are the same for all addresses of a window. -/
theorem sides_eq_of_contains (hm : Section.Sorted m.sections) (h : m.Maps first)
    (ha : (m.window first).contains a = true) :
    m.below a = m.below (m.window first).base ∧ m.above a = m.above (m.window first).base := by
  obtain ⟨hle, hlt⟩ := (Section.contains_iff _ _).1 ha
  have hsides := sides_eq_of_between (BitVec.le_def.2 hle) (between_window hm h hlt)
  exact ⟨hsides.1.symm, hsides.2.symm⟩

/-- In sorted sections a window is a section that was put in by its base. -/
theorem mapWindow_eq_insertSection (hm : Section.Sorted m.sections) (h : m.Maps first) :
    m.mapWindow first = m.insertSection (m.window first) := by
  obtain ⟨hbelow, habove⟩ := sides_eq_of_contains hm h (window_spec h.unmapped h.mappable).1
  have hsections : (m.insertSection (m.window first)).sections =
      m.below first ++ m.window first :: m.above first := by
    rw [sections_insertSection, hbelow, habove]
  rw [mapWindow, ← hsections]
  rfl

/-- All addresses of a window lie in the gap of the address that it was mapped for. -/
theorem gap_eq_of_contains (hm : Section.Sorted m.sections) (h : m.Maps first)
    (ha : (m.window first).contains a = true) :
    m.gapStart a = m.gapStart first ∧ m.gapEnd a = m.gapEnd first := by
  obtain ⟨hbelow, habove⟩ := sides_eq_of_contains hm h ha
  obtain ⟨hbelow', habove'⟩ := sides_eq_of_contains hm h (window_spec h.unmapped h.mappable).1
  rw [gapStart, gapStart, gapEnd, gapEnd, hbelow, habove, hbelow', habove']
  exact ⟨rfl, rfl⟩

/-- Nothing answered for the addresses of a window before it was mapped. -/
theorem unmapped_of_contains (hm : Section.Sorted m.sections) (h : m.Maps first)
    (ha : (m.window first).contains a = true) : m.sectionFor? a = none := by
  have hstart := (gap_eq_of_contains hm h ha).1
  have hbase := toNat_base_window h.unmapped
  have hle := ((Section.contains_iff _ _).1 ha).1
  rw [sectionFor?, Option.filter_eq_none_iff]
  intro t ht hc
  have hend := ((Section.contains_iff t a).1 hc).2
  have hlast : m.gapStart a = t.endAddress := by rw [gapStart, ht]; rfl
  omega

/-- A window answers for its addresses, and for the others what answered before. -/
theorem sectionFor?_mapWindow_of_sorted (hm : Section.Sorted m.sections) (h : m.Maps first)
    (a : Word) : (m.mapWindow first).sectionFor? a =
      if (m.window first).contains a = true then some (m.window first) else m.sectionFor? a := by
  by_cases ha : (m.window first).contains a = true
  · obtain ⟨hle, hlt⟩ := (Section.contains_iff _ _).1 ha
    rw [if_pos ha, mapWindow_eq_insertSection hm h, sectionFor?,
      below_insertSection_of_le (BitVec.le_def.2 hle), between_window hm h hlt,
      List.getLast?_append, List.getLast?_singleton, Option.some_or]
    exact Option.filter_some_pos ha
  · rw [if_neg ha]
    rcases sectionFor?_mapWindow_eq h.unmapped h.mappable a with hsame | ⟨-, -, hc⟩
    · exact hsame
    · exact absurd hc ha

/-- A window ends the gaps that it begins in and leaves the others alone. -/
theorem gapEnd_mapWindow (hm : Section.Sorted m.sections) (h : m.Maps first) (a : Word) :
    (m.mapWindow first).gapEnd a =
      if a < (m.window first).base then min (m.gapEnd a) (m.window first).base.toNat
      else m.gapEnd a := by
  have hbase := toNat_base_window_le h.unmapped
  rw [mapWindow_eq_insertSection hm h]
  by_cases hlt : a < (m.window first).base
  · rw [if_pos hlt]
    exact gapEnd_insertSection_of_lt hlt (le_trans hbase (le_of_lt h.mappable))
  · rw [if_neg hlt, gapEnd, gapEnd, above_insertSection_of_le (BitVec.not_lt.1 hlt)]

/-! ## Reads -/

/-- A read from a window gives zeros if the window holds all that is asked for. -/
theorem read_window (h : (m.window first).base.toNat ≤ addr.toNat) :
    (m.window first).read addr size =
      if addr.toNat + size ≤ (m.window first).endAddress then .ok (List.replicate size 0)
      else .error (.outOfBounds addr size .read) := by
  have hzeros : ∀ n i, (ByteStore.zeros n).read i size = List.replicate size 0 := by
    intro n i
    rw [ByteStore.read, List.eq_replicate_iff]
    refine ⟨by simp, ?_⟩
    intro b hb
    obtain ⟨j, -, rfl⟩ := List.mem_map.1 hb
    exact ByteStore.get_zeros n j
  by_cases hend : addr.toNat + size ≤ (m.window first).endAddress
  · rw [if_pos hend, Section.read, Section.offset, if_pos ⟨BitVec.le_def.2 h, hend⟩]
    exact congrArg Except.ok (hzeros _ _)
  · rw [if_neg hend, Section.read, Section.offset, if_neg (fun hin => hend hin.2)]

/-- A read of what is mapped is a read of the section that answers, and changes nothing. -/
theorem read_of_mapped (h : m.sectionFor? addr = some s) (size : Nat) :
    AddressSpace.read addr size m =
      match s.read addr size with
      | .ok bytes => .ok bytes m
      | .error e => .error e m := by
  rw [AddressSpace.read, resolve_of_mapped h]
  cases hread : s.read addr size <;> simp only [hread]

theorem resultOf_read_of_mapped (h : m.sectionFor? addr = some s) :
    resultOf (AddressSpace.read addr size) m = s.read addr size := by
  rw [resultOf, read_of_mapped h]
  cases s.read addr size <;> rfl

theorem resultOf_read_of_maps (h : m.Maps addr) :
    resultOf (AddressSpace.read addr size) m = (m.window addr).read addr size := by
  rw [resultOf, AddressSpace.read, resolve_of_maps h]
  cases hread : (m.window addr).read addr size <;> simp only [hread]

theorem resultOf_read_of_not_maps (h : m.sectionFor? addr = none) (hmaps : ¬ m.Maps addr) :
    resultOf (AddressSpace.read addr size) m = .error (.outOfBounds addr size .read) := by
  rw [resultOf, AddressSpace.read, resolve_of_not_maps h hmaps]

/-- A read of what is not mapped gives zeros if a window is mapped and the gap around it holds all
that is asked for. -/
theorem resultOf_read_of_unmapped (h : m.sectionFor? addr = none) (hsize : size ≤ windowReach) :
    resultOf (AddressSpace.read addr size) m =
      if m.Maps addr ∧ addr.toNat + size ≤ m.gapEnd addr then .ok (List.replicate size 0)
      else .error (.outOfBounds addr size .read) := by
  by_cases hmaps : m.Maps addr
  · have hup : addr.toNat + windowReach ≤ alignUp (addr.toNat + windowReach) windowAlignment :=
      le_alignUp _ (by decide)
    have hroom : addr.toNat + size ≤ (m.window addr).endAddress ↔
        m.Maps addr ∧ addr.toNat + size ≤ m.gapEnd addr := by
      rw [endAddress_window h hmaps.mappable, and_iff_right hmaps]
      omega
    rw [resultOf_read_of_maps hmaps, read_window (toNat_base_window_le h)]
    exact if_congr hroom rfl rfl
  · rw [if_neg (fun hboth => hmaps hboth.1), resultOf_read_of_not_maps h hmaps]

theorem stateAfter_read_of_maps (h : m.Maps first) (size : Nat) :
    stateAfter (AddressSpace.read first size) m = m.mapWindow first := by
  rw [stateAfter, AddressSpace.read, resolve_of_maps h]
  cases hread : (m.window first).read first size <;> simp only [hread]

/-- A read that maps no window leaves the space alone. -/
theorem stateAfter_read_of_not_maps (h : ¬ m.Maps first) (size : Nat) :
    stateAfter (AddressSpace.read first size) m = m := by
  cases hfor : m.sectionFor? first with
  | some s =>
    rw [stateAfter, read_of_mapped hfor]
    cases s.read first size <;> rfl
  | none => rw [stateAfter, AddressSpace.read, resolve_of_not_maps hfor h]

/-! ## A read after another one -/

/-- An edge lies strictly inside of a span. -/
def Cuts (edge : Nat) (addr : Word) (size : Nat) : Prop :=
  addr.toNat < edge ∧ edge < addr.toNat + size

/-- The window that an access to `first` maps has an edge inside of a span for which a window could
have been mapped: no section can hold all of the span any more. -/
structure Severs (m : AddressSpace) (first addr : Word) (size : Nat) : Prop where
  maps : m.Maps first
  gap : m.Maps addr
  room : addr.toNat + size ≤ m.gapEnd addr
  cut : Cuts (m.window first).base.toNat addr size ∨ Cuts (m.window first).endAddress addr size

/-- A read alone finds zeros wherever an earlier one can get into its way. -/
theorem Severs.resultOf_read (h : m.Severs first addr size) (hsize : size ≤ windowReach) :
    resultOf (AddressSpace.read addr size) m = .ok (List.replicate size 0) := by
  rw [resultOf_read_of_unmapped h.gap.unmapped hsize, if_pos ⟨h.gap, h.room⟩]

/-- A read that begins in a window sees the end of the window. -/
theorem resultOf_read_of_contains (hm : Section.Sorted m.sections) (h : m.Maps first)
    (ha : (m.window first).contains addr = true) :
    resultOf (AddressSpace.read addr size) (m.mapWindow first) =
      if addr.toNat + size ≤ (m.window first).endAddress then .ok (List.replicate size 0)
      else .error (.outOfBounds addr size .read) := by
  have hsome := sectionFor?_mapWindow_of_sorted hm h addr
  rw [if_pos ha] at hsome
  rw [resultOf_read_of_mapped hsome, read_window ((Section.contains_iff _ _).1 ha).1]

/-- A read that begins in a gap outside of the window sees that the window begins. -/
theorem resultOf_read_of_not_contains (hm : Section.Sorted m.sections) (h : m.Maps first)
    (ha : (m.window first).contains addr = false) (hnone : m.sectionFor? addr = none)
    (hsize : size ≤ windowReach) :
    resultOf (AddressSpace.read addr size) (m.mapWindow first) =
      if m.Maps addr ∧ addr.toNat + size ≤ (m.mapWindow first).gapEnd addr then
        .ok (List.replicate size 0)
      else .error (.outOfBounds addr size .read) := by
  have hnone' := sectionFor?_mapWindow_of_sorted hm h addr
  rw [ha, hnone] at hnone'
  have hmaps : (m.mapWindow first).Maps addr ↔ m.Maps addr :=
    ⟨fun h' => ⟨h'.onDemand, hnone, h'.mappable⟩, fun h' => ⟨h'.onDemand, hnone', h'.mappable⟩⟩
  rw [resultOf_read_of_unmapped hnone' hsize]
  exact if_congr (and_congr_left' hmaps) rfl rfl

/-- A read in a gap gives zeros or is out of bounds, also after a window was mapped. -/
theorem result_in_gap (hm : Section.Sorted m.sections) (h : m.Maps first) (haddr : m.Maps addr)
    (hsize : size ≤ windowReach) :
    resultOf (AddressSpace.read addr size) (m.mapWindow first) = .ok (List.replicate size 0) ∨
      resultOf (AddressSpace.read addr size) (m.mapWindow first) =
        .error (.outOfBounds addr size .read) := by
  cases ha : (m.window first).contains addr with
  | true =>
    rw [resultOf_read_of_contains hm h ha]
    exact ite_eq_or_eq ..
  | false =>
    rw [resultOf_read_of_not_contains hm h ha haddr.unmapped hsize]
    exact ite_eq_or_eq ..

/-- In a gap, two reads have the same result exactly if both or neither of them find room. -/
private theorem result_congr_iff {p q : Prop} [Decidable p] [Decidable q] :
    ((if p then .ok (List.replicate size 0) else .error (.outOfBounds addr size .read) :
        Except MemoryError (List Byte)) =
      if q then .ok (List.replicate size 0) else .error (.outOfBounds addr size .read)) ↔
      (p ↔ q) := by
  by_cases hp : p <;> by_cases hq : q <;> simp [hp, hq]

/-- Between two addresses of which each would be given a window, the window of the first matters to
a read of the second exactly if it severs what is read. -/
theorem result_eq_iff_of_maps (hm : Section.Sorted m.sections) (h : m.Maps first)
    (haddr : m.Maps addr) (hsize : size ≤ windowReach) :
    resultOf (AddressSpace.read addr size) (m.mapWindow first) =
      resultOf (AddressSpace.read addr size) m ↔ ¬ m.Severs first addr size := by
  have hsevers : m.Severs first addr size ↔ addr.toNat + size ≤ m.gapEnd addr ∧
      (Cuts (m.window first).base.toNat addr size ∨ Cuts (m.window first).endAddress addr size) :=
    ⟨fun hs => ⟨hs.room, hs.cut⟩, fun hs => ⟨h, haddr, hs.1, hs.2⟩⟩
  have hend := endAddress_window h.unmapped h.mappable
  have hcontains := window_spec h.unmapped h.mappable
  have hfirst := (Section.contains_iff _ _).1 hcontains.1
  rw [resultOf_read_of_unmapped haddr.unmapped hsize, hsevers, Cuts, Cuts]
  by_cases ha : (m.window first).contains addr = true
  · have hgap := (gap_eq_of_contains hm h ha).2
    have hin := (Section.contains_iff _ _).1 ha
    rw [resultOf_read_of_contains hm h ha, result_congr_iff, and_iff_right haddr]
    omega
  · have hout : ¬ ((m.window first).base.toNat ≤ addr.toNat ∧
        addr.toNat < (m.window first).endAddress) := by
      rw [← Section.contains_iff]
      exact ha
    rw [resultOf_read_of_not_contains hm h (Bool.not_eq_true _ ▸ ha) haddr.unmapped hsize,
      result_congr_iff, and_iff_right haddr, and_iff_right haddr, gapEnd_mapWindow hm h]
    by_cases hlt : addr < (m.window first).base
    · rw [if_pos hlt]
      rw [BitVec.lt_def] at hlt
      omega
    · rw [if_neg hlt]
      rw [BitVec.lt_def] at hlt
      omega

/-- What was mapped before is read as before. -/
theorem result_eq_of_mapped (hm : Section.Sorted m.sections) (h : m.Maps first)
    (hs : m.sectionFor? addr = some s) :
    resultOf (AddressSpace.read addr size) (m.mapWindow first) =
      resultOf (AddressSpace.read addr size) m := by
  have hout : ¬ (m.window first).contains addr = true := by
    intro hc
    rw [unmapped_of_contains hm h hc] at hs
    cases hs
  have hsame := sectionFor?_mapWindow_of_sorted hm h addr
  rw [if_neg hout, hs] at hsame
  rw [resultOf_read_of_mapped hs, resultOf_read_of_mapped hsame]

/-- Below the end of what is mapped on demand, an earlier read matters exactly if its window severs
what is read. -/
theorem result_eq_iff (hm : Section.Sorted m.sections) (haddr : addr.toNat < mappableEnd)
    (firstSize : Nat) (hsize : size ≤ windowReach) :
    resultOf (AddressSpace.read addr size) (stateAfter (AddressSpace.read first firstSize) m) =
      resultOf (AddressSpace.read addr size) m ↔ ¬ m.Severs first addr size := by
  by_cases h : m.Maps first
  · rw [stateAfter_read_of_maps h]
    cases hs : m.sectionFor? addr with
    | none => exact result_eq_iff_of_maps hm h ⟨h.onDemand, hs, haddr⟩ hsize
    | some s =>
      refine iff_of_true (result_eq_of_mapped hm h hs) ?_
      intro hsevers
      rw [hsevers.gap.unmapped] at hs
      cases hs
  · rw [stateAfter_read_of_not_maps h]
    exact iff_of_true rfl fun hsevers => h hsevers.maps

/-- No multiple of its size lies strictly inside of an aligned span. -/
theorem not_cuts_of_dvd {edge : Nat} (hedge : size ∣ edge) (haddr : size ∣ addr.toNat) :
    ¬ Cuts edge addr size := by
  rintro ⟨hlt, hlt'⟩
  have hle : size ≤ edge - addr.toNat :=
    Nat.le_of_dvd (Nat.sub_pos_of_lt hlt) (Nat.dvd_sub hedge haddr)
  omega

/-- A window that begins inside of a span begins at a multiple of its alignment: the gap began
before the span. -/
theorem dvd_base_of_cuts (hm : Section.Sorted m.sections) (h : m.Severs first addr size)
    (hcut : Cuts (m.window first).base.toNat addr size) :
    windowAlignment ∣ (m.window first).base.toNat := by
  obtain ⟨hlt, hlt'⟩ := hcut
  have hroom := h.room
  have hsides := sides_eq_of_between (BitVec.le_def.2 (le_of_lt hlt))
    (between_eq_nil hm (lt_of_lt_of_le hlt' hroom))
  have hfirst := sides_eq_of_contains hm h.maps (window_spec h.maps.unmapped h.maps.mappable).1
  have hstart : m.gapStart first = m.gapStart addr := by
    rw [gapStart, gapStart, hfirst.1, hsides.1]
  have hle := gapStart_le h.gap.unmapped
  rw [toNat_base_window h.maps.unmapped] at hlt ⊢
  rcases Nat.le_total (m.gapStart first)
    (alignDown (first.toNat - windowReach) windowAlignment) with hmax | hmax
  · rw [Nat.max_eq_right hmax]
    exact dvd_alignDown _ _
  · omega

/-- A window that ends inside of a span ends at a multiple of its alignment: the gap goes on behind
the span. -/
theorem dvd_end_of_cuts (hm : Section.Sorted m.sections) (h : m.Severs first addr size)
    (hcut : Cuts (m.window first).endAddress addr size) :
    windowAlignment ∣ (m.window first).endAddress := by
  obtain ⟨hlt, hlt'⟩ := hcut
  have hroom := h.room
  have hfirst := (Section.contains_iff _ _).1 (window_spec h.maps.unmapped h.maps.mappable).1
  rw [endAddress_window h.maps.unmapped h.maps.mappable] at hlt hlt' hfirst ⊢
  have hgap : m.gapEnd first = m.gapEnd addr := by
    rcases Nat.le_total addr.toNat first.toNat with hle | hle
    · have hsides := sides_eq_of_between (BitVec.le_def.2 hle)
        (between_eq_nil hm (show first.toNat < m.gapEnd addr by omega))
      rw [gapEnd, gapEnd, hsides.2]
    · have hsides := sides_eq_of_between (BitVec.le_def.2 hle)
        (between_eq_nil hm (show addr.toNat < m.gapEnd first by omega))
      rw [gapEnd, gapEnd, hsides.2]
  rcases Nat.le_total (m.gapEnd first)
    (alignUp (first.toNat + windowReach) windowAlignment) with hmin | hmin
  · omega
  · rw [Nat.min_eq_right hmin]
    exact dvd_alignUp _ _

/-- No window severs what an aligned read asks for. -/
theorem not_severs_of_aligned (hm : Section.Sorted m.sections) (hsize : size ∣ windowAlignment)
    (haddr : size ∣ addr.toNat) : ¬ m.Severs first addr size := by
  intro h
  rcases h.cut with hcut | hcut
  · exact not_cuts_of_dvd (Nat.dvd_trans hsize (dvd_base_of_cuts hm h hcut)) haddr hcut
  · exact not_cuts_of_dvd (Nat.dvd_trans hsize (dvd_end_of_cuts hm h hcut)) haddr hcut

/-- Above the end of what is mapped on demand, an earlier read matters at most if its window
contains what is read. -/
theorem result_eq_of_not_contains (hm : Section.Sorted m.sections)
    (haddr : mappableEnd ≤ addr.toNat) (hout : (m.window first).contains addr = false)
    (firstSize : Nat) :
    resultOf (AddressSpace.read addr size) (stateAfter (AddressSpace.read first firstSize) m) =
      resultOf (AddressSpace.read addr size) m := by
  by_cases h : m.Maps first
  · rw [stateAfter_read_of_maps h]
    cases hs : m.sectionFor? addr with
    | some s => exact result_eq_of_mapped hm h hs
    | none =>
      have hnone := sectionFor?_mapWindow_of_sorted hm h addr
      rw [hout, hs] at hnone
      have hnever : ∀ m' : AddressSpace, ¬ m'.Maps addr := by
        intro m' hmaps
        exact absurd hmaps.mappable (Nat.not_lt.2 haddr)
      rw [resultOf_read_of_not_maps hs (hnever m), resultOf_read_of_not_maps hnone (hnever _)]
  · rw [stateAfter_read_of_not_maps h]

/-- An earlier read does not matter if its window keeps off the span. -/
theorem result_eq_of_apart (hm : Section.Sorted m.sections) (firstSize : Nat)
    (hpos : 0 < size) (hsize : size ≤ windowReach)
    (hapart : (m.window first).endAddress ≤ addr.toNat ∨
      addr.toNat + size ≤ (m.window first).base.toNat) :
    resultOf (AddressSpace.read addr size) (stateAfter (AddressSpace.read first firstSize) m) =
      resultOf (AddressSpace.read addr size) m := by
  have hle := Section.base_le_endAddress (m.window first)
  rcases Nat.lt_or_ge addr.toNat mappableEnd with haddr | haddr
  · refine (result_eq_iff hm haddr firstSize hsize).2 ?_
    intro hsevers
    rcases hsevers.cut with ⟨hlt, hlt'⟩ | ⟨hlt, hlt'⟩
    · omega
    · omega
  · refine result_eq_of_not_contains hm haddr ?_ firstSize
    rw [← Bool.not_eq_true, Section.contains_iff]
    omega

/-- What happens to a read whose span an earlier one severs. -/
theorem Severs.results (h : m.Severs first addr size) (hm : Section.Sorted m.sections)
    (firstSize : Nat) (hsize : size ≤ windowReach) :
    resultOf (AddressSpace.read addr size) m = .ok (List.replicate size 0) ∧
      resultOf (AddressSpace.read addr size) (stateAfter (AddressSpace.read first firstSize) m) =
        .error (.outOfBounds addr size .read) := by
  have halone := h.resultOf_read hsize
  have hdiffers := mt (result_eq_iff hm h.gap.mappable firstSize hsize).1 (not_not.2 h)
  refine ⟨halone, ?_⟩
  rw [halone, stateAfter_read_of_maps h.maps] at hdiffers
  rw [stateAfter_read_of_maps h.maps]
  rcases result_in_gap hm h.maps h.gap hsize with hzeros | herror
  · exact absurd hzeros hdiffers
  · exact herror

/-- **A read after another one.** In a reachable space, and below the end of what is mapped on
demand, a read has the same result with and without another read before it, except in one case: the
first read maps a window with an edge strictly inside of the span of the second, for which alone a
window with all of its bytes would be mapped. Alone the second read then gives zeros, and after the
first it is out of bounds. So aligned reads never depend on earlier ones, and no read anywhere
depends on one whose window keeps off its span. -/
theorem read_after_read (h : Reachable 0 m) (first addr : Word) (firstSize size : Nat)
    (hpos : 0 < size) (hsize : size ≤ windowReach) :
    (addr.toNat + size ≤ mappableEnd →
      (resultOf (AddressSpace.read addr size) (stateAfter (AddressSpace.read first firstSize) m) =
        resultOf (AddressSpace.read addr size) m ↔ ¬ m.Severs first addr size) ∧
      (m.Severs first addr size →
        resultOf (AddressSpace.read addr size) m = .ok (List.replicate size 0) ∧
        resultOf (AddressSpace.read addr size) (stateAfter (AddressSpace.read first firstSize) m) =
          .error (.outOfBounds addr size .read))) ∧
    (size ∣ windowAlignment → size ∣ addr.toNat → ¬ m.Severs first addr size) ∧
    ((m.window first).endAddress ≤ addr.toNat ∨
        addr.toNat + size ≤ (m.window first).base.toNat →
      resultOf (AddressSpace.read addr size) (stateAfter (AddressSpace.read first firstSize) m) =
        resultOf (AddressSpace.read addr size) m) := by
  have hm := h.sorted
  refine ⟨?_, not_severs_of_aligned hm, result_eq_of_apart hm firstSize hpos hsize⟩
  intro hend
  have haddr : addr.toNat < mappableEnd := by omega
  exact ⟨result_eq_iff hm haddr firstSize hsize, fun hs => hs.results hm firstSize hsize⟩

/-- After a read at `0x8000` the bytes up to `0x18000` lie in one window: a read across its end
fails, and one that begins there does not notice. -/
theorem read_after_read_of_neighbour :
    Reachable 0 (empty true 0x1000) ∧ (empty true 0x1000).Severs 0x8000 0x17FFE 4 ∧
      resultOf (AddressSpace.read 0x17FFE 4)
        (stateAfter (AddressSpace.read 0x8000 4) (empty true 0x1000)) =
          .error (.outOfBounds 0x17FFE 4 .read) ∧
      resultOf (AddressSpace.read 0x18000 4)
        (stateAfter (AddressSpace.read 0x8000 4) (empty true 0x1000)) =
          resultOf (AddressSpace.read 0x18000 4) (empty true 0x1000) := by
  have hreach : Reachable 0 (empty true 0x1000) := .empty true 0x1000
  have hsevers : (empty true 0x1000).Severs 0x8000 0x17FFE 4 :=
    ⟨by decide, by decide, by decide, .inr ⟨by decide, by decide⟩⟩
  have hacross := read_after_read hreach 0x8000 0x17FFE 4 4 (by decide) (by decide)
  have hbehind := read_after_read hreach 0x8000 0x18000 4 4 (by decide) (by decide)
  refine ⟨hreach, hsevers, ((hacross.1 (by decide)).2 hsevers).2, ?_⟩
  exact ((hbehind.1 (by decide)).1).2 (hbehind.2.1 (by decide) (by decide))

/-- A read can fail because of where an earlier one placed its window. -/
theorem not_read_independent_of_history :
    ¬ ∀ (m : AddressSpace) (first addr : Word) (firstSize size : Nat), Reachable 0 m →
      m.lazyMapping = true → firstSize ∈ [1, 2, 4, 8] → size ∈ [1, 2, 4, 8] →
      resultOf (AddressSpace.read addr size) (stateAfter (AddressSpace.read first firstSize) m) =
        resultOf (AddressSpace.read addr size) m := by
  intro hall
  have hsame := hall (empty true 0x1000) 0x8000 0x17FFE 4 4 (.empty true 0x1000) rfl (by decide)
    (by decide)
  have hafter : resultOf (AddressSpace.read 0x17FFE 4)
      (stateAfter (AddressSpace.read 0x8000 4) (empty true 0x1000)) =
        .error (.outOfBounds 0x17FFE 4 .read) := rfl
  have halone : resultOf (AddressSpace.read 0x17FFE 4) (empty true 0x1000) =
      .ok [0, 0, 0, 0] := rfl
  rw [hafter, halone] at hsame
  cases hsame

end AddressSpace
end Riscv32
