import Riscv32.Proofs.Memory.Order

/-!
# What an access to memory does

An access looks for the section of its address, maps a window around the address if there is
none and the space allows it, and then works on one section. The lemmas here say all of that,
once for the search and once for each of the three accesses, so that later statements need not
open the accesses again.

## Main definitions

* `stateAfter x s` — the state that an action leaves, whether it fails or not.
* `resultOf x s` — what an action gives, apart from the state.
* `AddressSpace.gapStart`, `AddressSpace.gapEnd` — the ends of the gap around an address.
* `AddressSpace.mapWindow` — the space with a window of zeros around an address.
* `AddressSpace.Serves addr m m'` — what the search for `addr` makes of the space `m`.

## Main statements

* `AddressSpace.read_eq_ok`, `AddressSpace.write_eq_ok`, `AddressSpace.fetch_eq_ok`, the
  accesses that succeed.
* `AddressSpace.read_eq_error`, `AddressSpace.write_eq_error`, `AddressSpace.fetch_eq_error`, the
  accesses that fail: what was mapped stays mapped.
-/
namespace Riscv32

/-- The state that an action leaves, whether it fails or not. -/
def stateAfter {ε σ α : Type} (x : EStateM ε σ α) (s : σ) : σ :=
  match x s with
  | .ok _ s => s
  | .error _ s => s

/-- What an action gives, or the failure that it ends in. -/
def resultOf {ε σ α : Type} (x : EStateM ε σ α) (s : σ) : Except ε α :=
  match x s with
  | .ok a _ => .ok a
  | .error e _ => .error e

section

variable {ε σ α β : Type} {x : EStateM ε σ α} {f : α → EStateM ε σ β} {s s' : σ} {a : α} {e : ε}

theorem bind_of_ok (hx : x s = .ok a s') : (x >>= f) s = f a s' := by
  simp only [Bind.bind, EStateM.bind, hx]

theorem bind_of_error (hx : x s = .error e s') : (x >>= f) s = .error e s' := by
  simp only [Bind.bind, EStateM.bind, hx]

end

namespace Section

variable {s t : Section} {addr : Word} {size i : Nat} {data bytes : List Byte}
  {access : AccessKind} {inst : Instruction}

/-- An access has an offset if all of it lies in the section. -/
theorem offset_eq_ok (h : s.offset addr size access = .ok i) :
    s.base.toNat ≤ addr.toNat ∧ addr.toNat + size ≤ s.endAddress ∧
      i = addr.toNat - s.base.toNat := by
  unfold offset at h
  split at h
  case isTrue hc =>
    cases h
    exact ⟨BitVec.le_def.1 hc.1, hc.2, rfl⟩
  case isFalse => cases h

/-- A read gives the bytes of a byte section that all lie in it. -/
theorem read_eq_ok (h : s.read addr size = .ok bytes) :
    s.base.toNat ≤ addr.toNat ∧ addr.toNat + size ≤ s.endAddress ∧
      ∃ store decoded, s.contents = .bytes store decoded ∧
        bytes = store.read (addr.toNat - s.base.toNat) size := by
  unfold read at h
  split at h
  case h_1 => cases h
  case h_2 i store decoded ho hc =>
    cases h
    obtain ⟨hbase, hend, rfl⟩ := offset_eq_ok ho
    exact ⟨hbase, hend, store, decoded, hc, rfl⟩
  case h_3 => cases h

/-- A write replaces bytes of a byte section that all lie in it. -/
theorem write_eq_ok (h : s.write addr data = .ok t) :
    s.base.toNat ≤ addr.toNat ∧ addr.toNat + data.length ≤ s.endAddress ∧
      ∃ store decoded decoded', s.contents = .bytes store decoded ∧
        t = { s with
          contents := .bytes (store.write (addr.toNat - s.base.toNat) data) decoded' } := by
  unfold write at h
  split at h
  case isTrue => cases h
  case isFalse =>
    split at h
    case h_1 => cases h
    case h_2 i store decoded ho hc =>
      cases h
      obtain ⟨hbase, hend, rfl⟩ := offset_eq_ok ho
      exact ⟨hbase, hend, store, decoded, _, hc, rfl⟩
    case h_3 => cases h

/-- A fetch changes nothing of a section but what it remembers of it. -/
theorem fetch_eq_ok (h : s.fetch addr = .ok (inst, t)) :
    t = s ∨ ∃ store decoded decoded', s.contents = .bytes store decoded ∧
      t = { s with contents := .bytes store decoded' } := by
  unfold fetch at h
  split at h
  · cases h
  · split at h
    · cases h
    · split at h
      · cases h
      · unfold fetchSlot at h
        split at h
        case h_1 =>
          split at h
          · cases h
            exact .inl rfl
          · cases h
        case h_2 store decoded hc =>
          split at h
          · cases h
            exact .inl rfl
          · split at h
            · cases h
            · cases h
              exact .inr ⟨store, decoded, _, hc, rfl⟩

/-- A write leaves the place of a section alone. -/
theorem size_eq_of_write (h : s.write addr data = .ok t) : t.base = s.base ∧ t.size = s.size := by
  obtain ⟨-, -, store, decoded, decoded', hc, rfl⟩ := write_eq_ok h
  exact ⟨rfl, by simp [size, hc]⟩

/-- A fetch leaves the place of a section alone. -/
theorem size_eq_of_fetch (h : s.fetch addr = .ok (inst, t)) :
    t.base = s.base ∧ t.size = s.size := by
  rcases fetch_eq_ok h with rfl | ⟨store, decoded, decoded', hc, rfl⟩
  · exact ⟨rfl, rfl⟩
  · exact ⟨rfl, by simp [size, hc]⟩

end Section

namespace AddressSpace

variable {m m' m₁ : AddressSpace} {addr : Word} {s : Section} {size i : Nat}
  {data bytes : List Byte} {access : AccessKind} {inst : Instruction} {e : MemoryError}

/-- The space with a window of zeros around an unmapped address. -/
def mapWindow (m : AddressSpace) (addr : Word) : AddressSpace :=
  { m with sections := m.below addr ++ m.window addr :: m.above addr }

/-- The space that is searched for `addr`: the given one, or the one with a window around the
address if it is unmapped and the space maps on demand. -/
inductive Serves (addr : Word) (m : AddressSpace) : AddressSpace → Prop
  | found : Serves addr m m
  | mapped : m.sectionFor? addr = none → m.lazyMapping = true → addr.toNat < mappableEnd →
    Serves addr m (m.mapWindow addr)

theorem locate?_eq_some_iff :
    m.locate? addr = some (i, s) ↔ m.sectionFor? addr = some s ∧ i = (m.below addr).length - 1 := by
  simp only [locate?, sectionFor?, Option.map_eq_some_iff, Prod.mk.injEq]
  constructor
  · rintro ⟨t, ht, rfl, rfl⟩
    exact ⟨ht, rfl⟩
  · rintro ⟨hs, rfl⟩
    exact ⟨s, hs, rfl, rfl⟩

theorem locate?_eq_none_iff : m.locate? addr = none ↔ m.sectionFor? addr = none := by
  simp [locate?, sectionFor?]

/-- The section that answers for an address stands last among those not above it. -/
theorem split_of_sectionFor? (h : m.sectionFor? addr = some s) :
    ∃ front, m.below addr = front ++ [s] ∧ m.sections = front ++ s :: m.above addr := by
  obtain ⟨hlast, -⟩ := Option.filter_eq_some_iff.1 h
  obtain ⟨front, hfront⟩ := List.getLast?_eq_some_iff.1 hlast
  refine ⟨front, hfront, ?_⟩
  rw [← m.below_append_above addr, hfront, List.append_assoc]
  rfl

/-! ## The window -/

/-- The section below an unmapped address ends at or below it. -/
theorem endAddress_le_of_unmapped (h : m.sectionFor? addr = none)
    (hs : (m.below addr).getLast? = some s) : s.endAddress ≤ addr.toNat := by
  have hbase := Section.base_le_of_mem_takeWhile (l := m.sections) (List.mem_of_getLast? hs)
  have hc : s.contains addr ≠ true := by
    intro hc
    simp [sectionFor?, hs, hc] at h
  rw [ne_eq, Section.contains_iff] at hc
  omega

/-- The section that follows an address begins above it. -/
theorem lt_base_of_head?_above (hs : (m.above addr).head? = some s) :
    addr.toNat < s.base.toNat := by
  have hp := List.head?_dropWhile_not (fun s : Section => decide (s.base ≤ addr)) m.sections
  rw [show List.dropWhile _ m.sections = m.above addr from rfl, hs] at hp
  simpa [BitVec.le_def] using hp

/-- Where the gap around an unmapped address begins. -/
def gapStart (m : AddressSpace) (addr : Word) : Nat :=
  ((m.below addr).getLast?.map (·.endAddress)).getD 0

/-- Where the gap around an unmapped address ends: at the next section, or else where nothing is
mapped on demand any more. -/
def gapEnd (m : AddressSpace) (addr : Word) : Nat :=
  ((m.above addr).head?.map (·.base.toNat)).getD mappableEnd

theorem gapStart_le (h : m.sectionFor? addr = none) : m.gapStart addr ≤ addr.toNat := by
  rw [gapStart]
  cases hlast : (m.below addr).getLast? with
  | none => exact Nat.zero_le _
  | some s => exact endAddress_le_of_unmapped h hlast

theorem lt_gapEnd (ha : addr.toNat < mappableEnd) : addr.toNat < m.gapEnd addr := by
  rw [gapEnd]
  cases hhead : (m.above addr).head? with
  | none => exact ha
  | some s => exact lt_base_of_head?_above hhead

/-- The window begins in the gap, at most its reach below the address. -/
theorem toNat_base_window (h : m.sectionFor? addr = none) : (m.window addr).base.toNat =
    max (m.gapStart addr) (alignDown (addr.toNat - windowReach) windowAlignment) := by
  have hstart := gapStart_le h
  have hdown := alignDown_le (addr.toNat - windowReach) windowAlignment
  have hlt := addr.isLt
  change (BitVec.ofNat 32 (max (m.gapStart addr) _)).toNat = _
  rw [BitVec.toNat_ofNat]
  exact Nat.mod_eq_of_lt (by omega)

theorem toNat_base_window_le (h : m.sectionFor? addr = none) :
    (m.window addr).base.toNat ≤ addr.toNat := by
  have hstart := gapStart_le h
  have hdown := alignDown_le (addr.toNat - windowReach) windowAlignment
  rw [toNat_base_window h]
  omega

/-- The window ends in the gap, about its reach above the address. -/
theorem endAddress_window (h : m.sectionFor? addr = none) (ha : addr.toNat < mappableEnd) :
    (m.window addr).endAddress =
      min (m.gapEnd addr) (alignUp (addr.toNat + windowReach) windowAlignment) := by
  have hbase := toNat_base_window h
  have hle := toNat_base_window_le h
  have hend := lt_gapEnd (m := m) ha
  have hup : addr.toNat + windowReach ≤ alignUp (addr.toNat + windowReach) windowAlignment :=
    le_alignUp _ (by decide)
  change (m.window addr).base.toNat + (min (m.gapEnd addr) _ -
    max (m.gapStart addr) (alignDown (addr.toNat - windowReach) windowAlignment)) = _
  rw [← hbase]
  omega

/-- The window around an unmapped address contains it, keeps off the section below and ends at
or below the section above. -/
theorem window_spec (h : m.sectionFor? addr = none) (ha : addr.toNat < mappableEnd) :
    (m.window addr).contains addr = true ∧
      (∀ s, (m.below addr).getLast? = some s → s.endAddress ≤ (m.window addr).base.toNat) ∧
      ∀ s, (m.above addr).head? = some s → (m.window addr).endAddress ≤ s.base.toNat := by
  refine ⟨?_, ?_, ?_⟩
  · have hend := lt_gapEnd (m := m) ha
    have hup : addr.toNat + windowReach ≤ alignUp (addr.toNat + windowReach) windowAlignment :=
      le_alignUp _ (by decide)
    have hreach : windowReach = 0xFFFF := rfl
    rw [Section.contains_iff, endAddress_window h ha]
    exact ⟨toNat_base_window_le h, by omega⟩
  · intro s hs
    rw [toNat_base_window h, gapStart, hs]
    exact le_max_left _ _
  · intro s hs
    rw [endAddress_window h ha, gapEnd, hs]
    exact min_le_left _ _

/-! ## The search -/

/-- The search hands out a section of the space it leaves, at its position there. -/
theorem resolve_eq_ok (h : m.resolve addr size access = .ok (i, s, m')) :
    Serves addr m m' ∧ s.contains addr = true ∧
      ∃ front back, m'.sections = front ++ s :: back ∧ i = front.length := by
  unfold resolve at h
  split at h
  case h_1 j t hloc =>
    cases h
    obtain ⟨hs, hi⟩ := locate?_eq_some_iff.1 hloc
    obtain ⟨front, hbelow, hsections⟩ := split_of_sectionFor? hs
    refine ⟨.found, (mem_of_sectionFor? hs).2, front, _, hsections, ?_⟩
    rw [hi, hbelow, List.length_append, List.length_singleton, Nat.add_sub_cancel]
  case h_2 hloc =>
    have hs := locate?_eq_none_iff.1 hloc
    split at h
    case isTrue hc =>
      cases h
      rw [Bool.and_eq_true, decide_eq_true_eq] at hc
      exact ⟨.mapped hs hc.1 hc.2, (window_spec hs hc.2).1, _, _, rfl, rfl⟩
    case isFalse => cases h

/-- The replacement of the section that the search handed out. -/
theorem sections_setSection {front back : List Section} {t : Section}
    (h : m.sections = front ++ s :: back) :
    (m.setSection front.length t).sections = front ++ t :: back := by
  simp [setSection, h]

/-! ## The accesses -/

theorem read_eq_ok (h : AddressSpace.read addr size m = .ok bytes m') :
    Serves addr m m' ∧
      ∃ s ∈ m'.sections, s.contains addr = true ∧ s.read addr size = .ok bytes := by
  unfold AddressSpace.read at h
  split at h
  case h_1 => cases h
  case h_2 i s m₁ hres =>
    obtain ⟨hserves, hc, front, back, hsections, -⟩ := resolve_eq_ok hres
    split at h
    case h_1 => cases h
    case h_2 hread =>
      cases h
      exact ⟨hserves, s, by simp [hsections], hc, hread⟩

theorem read_eq_error (h : AddressSpace.read addr size m = .error e m') : Serves addr m m' := by
  unfold AddressSpace.read at h
  split at h
  case h_1 =>
    cases h
    exact .found
  case h_2 hres =>
    split at h
    case h_1 =>
      cases h
      exact (resolve_eq_ok hres).1
    case h_2 => cases h

theorem readNat_eq_ok {v : Nat} (h : readNat addr size m = .ok v m') :
    ∃ bytes, AddressSpace.read addr size m = .ok bytes m' ∧ v = ofLittleEndian bytes := by
  cases hread : AddressSpace.read addr size m with
  | ok bytes m₁ =>
    rw [readNat, bind_of_ok hread] at h
    cases h
    exact ⟨bytes, rfl, rfl⟩
  | error e m₁ =>
    rw [readNat, bind_of_error hread] at h
    cases h

theorem readNat_eq_error (h : readNat addr size m = .error e m') :
    AddressSpace.read addr size m = .error e m' := by
  cases hread : AddressSpace.read addr size m with
  | ok bytes m₁ =>
    rw [readNat, bind_of_ok hread] at h
    cases h
  | error e₁ m₁ =>
    rw [readNat, bind_of_error hread] at h
    cases h
    rfl

theorem write_eq_ok (h : AddressSpace.write addr data m = .ok () m') :
    ∃ m₁ front s t back, Serves addr m m₁ ∧ m₁.sections = front ++ s :: back ∧
      s.contains addr = true ∧ s.write addr data = .ok t ∧
      m' = { m₁ with sections := front ++ t :: back } := by
  unfold AddressSpace.write at h
  split at h
  case h_1 => cases h
  case h_2 i s m₁ hres =>
    obtain ⟨hserves, hc, front, back, hsections, rfl⟩ := resolve_eq_ok hres
    split at h
    case h_1 => cases h
    case h_2 t hwrite =>
      cases h
      refine ⟨m₁, front, s, t, back, hserves, hsections, hc, hwrite, ?_⟩
      rw [← sections_setSection hsections]
      rfl

theorem write_eq_error (h : AddressSpace.write addr data m = .error e m') : Serves addr m m' := by
  unfold AddressSpace.write at h
  split at h
  case h_1 =>
    cases h
    exact .found
  case h_2 hres =>
    split at h
    case h_1 =>
      cases h
      exact (resolve_eq_ok hres).1
    case h_2 => cases h

theorem fetch_eq_ok (h : AddressSpace.fetch addr m = .ok inst m') :
    ∃ m₁ front s t back, Serves addr m m₁ ∧ m₁.sections = front ++ s :: back ∧
      s.contains addr = true ∧ s.fetch addr = .ok (inst, t) ∧
      m' = { m₁ with sections := front ++ t :: back } := by
  unfold AddressSpace.fetch at h
  split at h
  case h_1 => cases h
  case h_2 i s m₁ hres =>
    obtain ⟨hserves, hc, front, back, hsections, rfl⟩ := resolve_eq_ok hres
    split at h
    case h_1 => cases h
    case h_2 inst t hfetch =>
      cases h
      refine ⟨m₁, front, s, t, back, hserves, hsections, hc, hfetch, ?_⟩
      rw [← sections_setSection hsections]
      rfl

/-- A fetch that succeeds found a section: a window that it would have to map is no code. -/
theorem section_of_fetch (h : AddressSpace.fetch addr m = .ok inst m') :
    ∃ s t, m.sectionFor? addr = some s ∧ s.fetch addr = .ok (inst, t) := by
  cases hloc : m.locate? addr with
  | some found =>
    obtain ⟨i, s⟩ := found
    simp only [AddressSpace.fetch, resolve, hloc] at h
    split at h
    case h_1 => cases h
    case h_2 inst' t hfetch =>
      cases h
      exact ⟨s, t, (locate?_eq_some_iff.1 hloc).1, hfetch⟩
  | none =>
    simp only [AddressSpace.fetch, resolve, hloc] at h
    split at h
    case h_1 => cases h
    case h_2 i s m₁ hres =>
      split at hres
      case isTrue =>
        cases hres
        -- the window is data
        cases h
      case isFalse => cases hres

theorem fetch_eq_error (h : AddressSpace.fetch addr m = .error e m') : Serves addr m m' := by
  unfold AddressSpace.fetch at h
  split at h
  case h_1 =>
    cases h
    exact .found
  case h_2 hres =>
    split at h
    case h_1 =>
      cases h
      exact (resolve_eq_ok hres).1
    case h_2 => cases h

end AddressSpace
end Riscv32
