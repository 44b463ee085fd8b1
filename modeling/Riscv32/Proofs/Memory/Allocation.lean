import Mathlib.Order.Bounds.Basic
import Riscv32.Proofs.Memory.Room

/-!
# Allocation

An allocation takes the first place that will do: the least multiple of sixteen from the load
alignment on where a section of the size asked for ends in time and keeps off all others. The
sections are passed in the order of their bases, and a cursor goes behind each of them until there
is room in front of the next one. No place below the cursor will do for any section that was passed,
wherever those end. So the place is the least one, even if sections end out of order or unaligned.

If the load alignment is below sixteen, the cursor begins at it, and the first place need not be a
multiple of sixteen. From the first section that the cursor passes, it is one.

## Main definitions

* `AddressSpace.Admits m size c` — a section of `size` bytes may be allocated at `c`.
* `AddressSpace.Blank name size permissions s` — `s` is what an allocation puts in.
* `AddressSpace.FirstFit m name size permissions r` — what may become of an allocation.

## Main statements

* `AddressSpace.firstGap_le`, no place is missed.
* `AddressSpace.allocates_allocate`, what becomes of an allocation in a sorted space.
* `AddressSpace.allocate_first_fit`, the same where the cursor begins at a multiple of sixteen.
-/
namespace Riscv32.AddressSpace

variable {m m' : AddressSpace} {s t : Section} {l : List Section} {name : String}
  {permissions : Permissions} {base : Word} {least size cursor c : Nat}

/-! ## The cursor -/

/-- No place at or above the cursor is missed. -/
theorem firstGap_le (hc : windowAlignment ∣ c) (hcursor : cursor ≤ c)
    (hfree : ∀ s ∈ l, s.endAddress ≤ c ∨ c + size ≤ s.base.toNat) :
    firstGap size cursor l ≤ c := by
  induction l generalizing cursor with
  | nil => exact hcursor
  | cons s rest ih =>
    rw [firstGap]
    split
    case isTrue => exact hcursor
    case isFalse hgap =>
      -- the place cannot be in front of the section, since the cursor is not
      have hbehind : s.endAddress ≤ c := by
        rcases hfree s (List.mem_cons_self ..) with hend | hfront
        · exact hend
        · omega
      refine ih (Nat.max_le.2 ⟨hcursor, alignUp_le (by decide) hc hbehind⟩) ?_
      intro t ht
      exact hfree t (List.mem_cons_of_mem s ht)

/-- The cursor is where it began, or at a multiple of sixteen. -/
theorem firstGap_eq_or_dvd (size cursor : Nat) (l : List Section) :
    firstGap size cursor l = cursor ∨ windowAlignment ∣ firstGap size cursor l := by
  induction l generalizing cursor with
  | nil => exact .inl rfl
  | cons s rest ih =>
    rw [firstGap]
    split
    case isTrue => exact .inl rfl
    case isFalse =>
      rcases ih (max cursor (alignUp s.endAddress windowAlignment)) with hstays | hdvd
      · rw [hstays]
        rcases Nat.le_total (alignUp s.endAddress windowAlignment) cursor with hle | hle
        · exact .inl (Nat.max_eq_left hle)
        · rw [Nat.max_eq_right hle]
          exact .inr (dvd_alignUp _ _)
      · exact .inr hdvd

/-! ## What an allocation does -/

/-- Whether a section of `size` bytes may be allocated at `c`. -/
structure Admits (m : AddressSpace) (size c : Nat) : Prop where
  aligned : windowAlignment ∣ c
  least : m.loadAlignment ≤ c
  within : c + size ≤ mappableEnd
  free : ∀ t ∈ m.sections, t.endAddress ≤ c ∨ c + size ≤ t.base.toNat

/-- What an allocation puts in: a section of zeros that belongs to the system. -/
structure Blank (name : String) (size : Nat) (permissions : Permissions) (s : Section) : Prop where
  called : s.name = name
  owned : s.owner = systemOwner
  allows : s.permissions = permissions
  length : s.size = size
  zeros : ∀ addr, s.contains addr = true → s.byteAt? addr = some 0

theorem blank_zeroed (name : String) (base : Word) (size : Nat) (permissions : Permissions) :
    Blank name size permissions
      { Section.zeroed name base size permissions with owner := systemOwner } := by
  refine ⟨rfl, rfl, rfl, rfl, ?_⟩
  intro addr haddr
  refine (if_pos haddr).trans ?_
  rw [ByteStore.get_zeros]

/-- An allocation fails for want of room behind the cursor, or takes the place at the cursor. -/
inductive Allocates (m : AddressSpace) (name : String) (size : Nat) (permissions : Permissions) :
    Except MemoryError (Word × AddressSpace) → Prop
  | full : mappableEnd < firstGap size m.loadAlignment m.sections + size →
    Allocates m name size permissions (.error (.outOfMemory name size))
  | placed {front : List Section} {s : Section} {back : List Section} :
    s.base.toNat = firstGap size m.loadAlignment m.sections →
    s.base.toNat + size ≤ mappableEnd → m.sections = front ++ back →
    Blank name size permissions s → (∀ t ∈ m.sections, t.overlaps s = false) →
    Allocates m name size permissions (.ok (s.base, { m with sections := front ++ s :: back }))

theorem allocates_allocate (hm : Section.Sorted m.sections) (name : String) (size : Nat)
    (permissions : Permissions) :
    Allocates m name size permissions (m.allocate name size permissions) := by
  obtain ⟨-, hgap⟩ := firstGap_spec hm size m.loadAlignment
  by_cases hfull : mappableEnd < firstGap size m.loadAlignment m.sections + size
  · rw [allocate, if_pos hfull]
    exact .full hfull
  · let s : Section :=
      { Section.zeroed name (BitVec.ofNat 32 (firstGap size m.loadAlignment m.sections)) size
          permissions with owner := systemOwner }
    have hend : mappableEnd = 0x7FFFFFFF := rfl
    have hbase : s.base.toNat = firstGap size m.loadAlignment m.sections :=
      (BitVec.toNat_ofNat _ _).trans (Nat.mod_eq_of_lt (by omega))
    have hinsert : m.insertSection s =
        { m with sections := m.below s.base ++ s :: m.above s.base } := by
      rw [← sections_insertSection]
      rfl
    rw [allocate, if_neg hfull]
    change Allocates m name size permissions (.ok (s.base, m.insertSection s))
    rw [hinsert]
    refine .placed hbase ?_ (below_append_above m s.base).symm (blank_zeroed ..) ?_
    · rw [hbase]
      exact Nat.not_lt.1 hfull
    · intro t ht
      rw [Section.overlaps_eq_false_iff, Section.endAddress, hbase]
      exact (hgap t ht).symm

/-! ## First fit -/

/-- The least place that will do is taken, or there is none. -/
inductive FirstFit (m : AddressSpace) (name : String) (size : Nat) (permissions : Permissions) :
    Except MemoryError (Word × AddressSpace) → Prop
  | placed {front : List Section} {s : Section} {back : List Section} :
    IsLeast {c | m.Admits size c} s.base.toNat → m.sections = front ++ back →
    Blank name size permissions s → (∀ t ∈ m.sections, t.overlaps s = false) →
    FirstFit m name size permissions (.ok (s.base, { m with sections := front ++ s :: back }))
  | full : (∀ c, ¬ m.Admits size c) →
    FirstFit m name size permissions (.error (.outOfMemory name size))

/-- A load alignment of sixteen or more is a multiple of sixteen. -/
theorem Reachable.dvd_loadAlignment (h : Reachable least m) (hle : 16 ≤ m.loadAlignment) :
    windowAlignment ∣ m.loadAlignment := by
  obtain ⟨k, hk⟩ := h.isPowerOfTwo_loadAlignment
  have hfour : 4 ≤ k := by
    by_contra hlt
    have hpow : 2 ^ k ≤ 2 ^ 3 := Nat.pow_le_pow_right (by decide) (by omega)
    omega
  rw [hk]
  exact Nat.pow_dvd_pow 2 hfour

/-- The place at the cursor will do, if it ends in time. -/
theorem admits_firstGap (hm : Section.Sorted m.sections)
    (hdvd : windowAlignment ∣ firstGap size m.loadAlignment m.sections)
    (hfit : firstGap size m.loadAlignment m.sections + size ≤ mappableEnd) :
    m.Admits size (firstGap size m.loadAlignment m.sections) := by
  obtain ⟨hleast, hfree⟩ := firstGap_spec hm size m.loadAlignment
  exact ⟨hdvd, hleast, hfit, hfree⟩

/-- **Allocation is first fit.** In a reachable space with a load alignment of sixteen or more, an
allocation takes the least place that will do and puts a section of zeros there. If there is none it
fails, and leaves the space as it was. -/
theorem allocate_first_fit (h : Reachable 0 m) (halign : 16 ≤ m.loadAlignment) (name : String)
    (size : Nat) (permissions : Permissions) :
    FirstFit m name size permissions (m.allocate name size permissions) ∧
      ((∀ c, ¬ m.Admits size c) → m.after (.allocate name size permissions) = m) := by
  have hdvd : windowAlignment ∣ firstGap size m.loadAlignment m.sections := by
    rcases firstGap_eq_or_dvd size m.loadAlignment m.sections with heq | hdvd
    · rw [heq]
      exact h.dvd_loadAlignment halign
    · exact hdvd
  have hleast : ∀ c, m.Admits size c → firstGap size m.loadAlignment m.sections ≤ c :=
    fun c hc => firstGap_le hc.aligned hc.least hc.free
  have hallocates := allocates_allocate h.sorted name size permissions
  rw [after]
  generalize m.allocate name size permissions = r at hallocates ⊢
  cases hallocates with
  | full hfull =>
    refine ⟨.full ?_, fun _ => rfl⟩
    intro c hc
    have hle := hleast c hc
    have hwithin := hc.within
    omega
  | placed hbase hend hsplit hblank hapart =>
    have hadmits := admits_firstGap h.sorted hdvd (hbase ▸ hend)
    refine ⟨.placed ?_ hsplit hblank hapart, fun hnone => absurd hadmits (hnone _)⟩
    rw [hbase]
    exact ⟨hadmits, hleast⟩

/-- A space with sixteen bytes of room between two sections, the first of which ends unaligned. -/
def gapped : AddressSpace :=
  (({} : AddressSpace).after (.addSection (.zeroed ".first" 0x1000 4 .data))).after
    (.addSection (.zeroed ".second" 0x1020 16 .data))

theorem reachable_gapped : Reachable 0 gapped :=
  .call (.call reachable_default (Nat.zero_le _)) (Nat.zero_le _)

/-- What fits in between goes there, and what does not goes behind. -/
theorem allocate_first_fit_gapped :
    Reachable 0 gapped ∧ 16 ≤ gapped.loadAlignment ∧
      FirstFit gapped ".heap" 16 .data (gapped.allocate ".heap" 16 .data) ∧
      (gapped.allocate ".heap" 16 .data).toOption.map Prod.fst = some 0x1010 ∧
      FirstFit gapped ".heap" 32 .data (gapped.allocate ".heap" 32 .data) ∧
      (gapped.allocate ".heap" 32 .data).toOption.map Prod.fst = some 0x1030 ∧
      FirstFit gapped ".heap" 0x7FFFFFFF .data (.error (.outOfMemory ".heap" 0x7FFFFFFF)) := by
  have halign : 16 ≤ gapped.loadAlignment := by decide
  have hfit := allocate_first_fit reachable_gapped halign ".heap"
  have hfull : gapped.allocate ".heap" 0x7FFFFFFF .data =
      .error (.outOfMemory ".heap" 0x7FFFFFFF) := by
    rw [allocate, if_pos (by decide)]
  exact ⟨reachable_gapped, halign, (hfit 16 .data).1, by decide, (hfit 32 .data).1, by decide,
    hfull ▸ (hfit 0x7FFFFFFF .data).1⟩

end Riscv32.AddressSpace
