import Riscv32.Proofs.Memory.Reachable

/-!
# The address space as a flat memory

An address space without empty sections behaves like a map from addresses to bytes. An access
may put a section into the middle of the list, and a write or a fetch replaces one; seen from an
address, the first gives bytes of zero to addresses that had none, and the second changes what a
write covers and nothing else. The list itself does not show.

## Main definitions

* `AddressSpace.Mapped a` — some section answers for the address `a`.
* `AddressSpace.Covers start length a` — the address `a` is one of `length` from `start` on.
* `AddressSpace.ExtendsOff inside m m'` — outside of `inside`, the flat memory of `m'` is that of
  `m` with further bytes of zero.

## Main statements

* `AddressSpace.Serves.extends`, the search as seen from an address.
* `AddressSpace.sectionFor?_replace`, the replacement of a section as seen from an address.
* `AddressSpace.flat_accesses_of_reachable`, all accesses in a reachable space.
-/
namespace Riscv32

/-- The address is one of `length` addresses from `start` on. -/
def Covers (start : Word) (length : Nat) (a : Word) : Prop :=
  start.toNat ≤ a.toNat ∧ a.toNat < start.toNat + length

instance (start : Word) (length : Nat) (a : Word) : Decidable (Covers start length a) :=
  inferInstanceAs (Decidable (_ ∧ _))

namespace Section

variable {s t : Section} {addr a : Word} {size : Nat} {data bytes : List Byte}
  {inst : Instruction}

/-- A section contains every address if it holds the first and the last one of a range. -/
theorem contains_of_covers (hbase : s.base.toNat ≤ addr.toNat)
    (hend : addr.toNat + size ≤ s.endAddress) (ha : Covers addr size a) : s.contains a = true := by
  obtain ⟨hle, hlt⟩ := ha
  rw [contains_iff]
  omega

theorem byteAt?_of_contains {store : ByteStore} {decoded : DecodeCache}
    (hs : s.contents = .bytes store decoded) (ha : s.contains a = true) :
    s.byteAt? a = some (store.get (a.toNat - s.base.toNat)) := by
  simp only [byteAt?, hs, ha, if_true]

/-- The same place and size contain the same addresses. -/
theorem contains_congr (hb : t.base = s.base) (hz : t.size = s.size) (a : Word) :
    t.contains a = s.contains a := by
  rw [contains, contains, endAddress, endAddress, hb, hz]

/-- A read gives the bytes at the addresses that it covers. -/
theorem byteAt?_of_read (h : s.read addr size = .ok bytes) (ha : Covers addr size a) :
    s.byteAt? a = bytes[a.toNat - addr.toNat]? := by
  obtain ⟨hbase, hend, store, decoded, hc, rfl⟩ := read_eq_ok h
  rw [byteAt?_of_contains hc (contains_of_covers hbase hend ha)]
  obtain ⟨hle, hlt⟩ := ha
  have hoffset : addr.toNat - s.base.toNat + (a.toNat - addr.toNat) = a.toNat - s.base.toNat := by
    omega
  rw [ByteStore.read, List.getElem?_map, List.getElem?_range' (by omega), Option.map_some,
    Nat.one_mul, hoffset]

/-- A write leaves its data at the addresses that it covers. -/
theorem byteAt?_of_write (h : s.write addr data = .ok t) (ha : Covers addr data.length a) :
    t.byteAt? a = data[a.toNat - addr.toNat]? := by
  obtain ⟨hbase, hend, store, decoded, decoded', hc, rfl⟩ := write_eq_ok h
  have hsize := size_eq_of_write h
  have hcontains := contains_of_covers hbase hend ha
  rw [← contains_congr hsize.1 hsize.2] at hcontains
  have hbyte := byteAt?_of_contains rfl hcontains
  simp only at hbyte
  obtain ⟨hle, hlt⟩ := ha
  have hoffset : a.toNat - s.base.toNat - (addr.toNat - s.base.toNat) = a.toNat - addr.toNat := by
    omega
  have hi : a.toNat - addr.toNat < data.length := by omega
  rw [hbyte, ByteStore.get_write, if_pos (by omega), hoffset, List.getElem?_eq_getElem hi]
  simp [hi]

/-- A write leaves the byte at every address alone that it does not cover. -/
theorem byteAt?_write_of_not_covers (h : s.write addr data = .ok t)
    (ha : ¬ Covers addr data.length a) : t.byteAt? a = s.byteAt? a := by
  obtain ⟨hbase, hend, store, decoded, decoded', hc, rfl⟩ := write_eq_ok h
  have hsize := size_eq_of_write h
  have hcontains := contains_congr hsize.1 hsize.2 a
  simp only [byteAt?, hc, hcontains]
  by_cases hs : s.contains a = true
  · rw [if_pos hs, if_pos hs, ByteStore.get_write]
    by_cases hle : addr.toNat - s.base.toNat ≤ a.toNat - s.base.toNat
    · have hsa := ((contains_iff s a).1 hs).1
      have hlen : data.length ≤ a.toNat - s.base.toNat - (addr.toNat - s.base.toNat) := by
        rw [Covers] at ha
        omega
      rw [if_pos hle]
      simp [hlen]
    · rw [if_neg hle]
  · rw [if_neg hs, if_neg hs]

/-- A fetch leaves every byte alone. -/
theorem byteAt?_of_fetch (h : s.fetch addr = .ok (inst, t)) (a : Word) :
    t.byteAt? a = s.byteAt? a := by
  rcases fetch_eq_ok h with rfl | ⟨store, decoded, decoded', hc, rfl⟩
  · rfl
  · have hsize := size_eq_of_fetch h
    have hcontains := contains_congr hsize.1 hsize.2 a
    simp only [byteAt?, hc, hcontains]

end Section

namespace AddressSpace

variable {m m' m₁ : AddressSpace} {addr a : Word} {s t : Section} {front back : List Section}
  {inside : Word → Prop}

/-- Some section answers for the address. -/
def Mapped (m : AddressSpace) (a : Word) : Prop := ∃ s, m.sectionFor? a = some s

/-- Outside of `inside`, what was mapped keeps its byte and what becomes mapped holds zero; and
nothing becomes mapped unless the space maps on demand. -/
structure ExtendsOff (inside : Word → Prop) (m m' : AddressSpace) : Prop where
  kept : ∀ a, m.Mapped a → m'.Mapped a ∧ (¬ inside a → m'.byteAt? a = m.byteAt? a)
  fresh : ∀ a, ¬ m.Mapped a → m'.Mapped a → ¬ inside a → m'.byteAt? a = some 0
  fixed : m.lazyMapping = false → ∀ a, m'.Mapped a ↔ m.Mapped a

/-- What was mapped keeps its byte and what becomes mapped holds zero. -/
abbrev Extends : AddressSpace → AddressSpace → Prop := ExtendsOff fun _ => False

theorem byteAt?_of_sectionFor? (h : m.sectionFor? a = some s) : m.byteAt? a = s.byteAt? a := by
  simp only [byteAt?, h, Option.bind_some]

theorem byteAt?_congr (h : m'.sectionFor? a = m.sectionFor? a) : m'.byteAt? a = m.byteAt? a := by
  simp only [byteAt?, h]

/-! ## The search -/

/-- The window holds zero everywhere. -/
theorem byteAt?_window (ha : (m.window addr).contains a = true) :
    (m.window addr).byteAt? a = some 0 := by
  rw [Section.byteAt?_of_contains rfl ha, ByteStore.get_zeros]

theorem sectionFor?_mapWindow (hm : m.Tidy) (hs : m.sectionFor? addr = none)
    (haddr : addr.toNat < mappableEnd) :
    (m.mapWindow addr).sectionFor? a = some s ↔
      (s = m.window addr ∧ s.contains a = true) ∨ m.sectionFor? a = some s := by
  have hsep : Section.Separated (m.mapWindow addr).sections :=
    separated_mapWindow hm.separated hs haddr
  rw [sectionFor?_eq_some_iff hsep, sectionFor?_eq_some_iff hm.separated, mapWindow,
    List.mem_append, List.mem_cons, or_left_comm, ← List.mem_append, below_append_above,
    or_and_right]

/-- Whether it maps a window or not, the search gives no address another byte. -/
theorem Serves.extends (h : Serves addr m m') (hm : m.Tidy) : Extends m m' := by
  cases h with
  | found =>
    exact ⟨fun a ha => ⟨ha, fun _ => rfl⟩, fun a ha ha' => absurd ha' ha, fun _ a => Iff.rfl⟩
  | mapped hs hlazy haddr =>
    refine ⟨?_, ?_, ?_⟩
    · rintro a ⟨s, hsa⟩
      have hsa' := (sectionFor?_mapWindow hm hs haddr).2 (.inr hsa)
      exact ⟨⟨s, hsa'⟩, fun _ => byteAt?_congr (hsa'.trans hsa.symm)⟩
    · rintro a ha ⟨s, hsa⟩ -
      rcases (sectionFor?_mapWindow hm hs haddr).1 hsa with ⟨rfl, hc⟩ | hold
      · rw [byteAt?_of_sectionFor? hsa, byteAt?_window hc]
      · exact absurd ⟨s, hold⟩ ha
    · intro hstrict
      rw [hlazy] at hstrict
      cases hstrict

/-! ## The replacement of a section -/

/-- If a section gives way to one of the same place, that one answers for its addresses. -/
theorem sectionFor?_replace (hm : m.Tidy) (hs : m.sections = front ++ s :: back)
    (hb : t.base = s.base) (hz : t.size = s.size) (a : Word) :
    ({ m with sections := front ++ t :: back } : AddressSpace).sectionFor? a =
      if s.contains a = true then some t else m.sectionFor? a := by
  have hc := Section.contains_congr hb hz a
  have hm' : ({ m with sections := front ++ t :: back } : AddressSpace).Tidy :=
    Edit.tidy (.replace front s t back hs hb hz rfl) hm
  by_cases hsa : s.contains a = true
  · rw [if_pos hsa, sectionFor?_eq_some_iff hm'.separated, hc]
    exact ⟨by simp, hsa⟩
  · rw [if_neg hsa]
    ext u
    rw [sectionFor?_eq_some_iff hm'.separated, sectionFor?_eq_some_iff hm.separated, hs]
    simp only [List.mem_append, List.mem_cons]
    constructor
    · rintro ⟨hu | rfl | hu, hua⟩
      · exact ⟨.inl hu, hua⟩
      · exact absurd (hc.symm.trans hua) hsa
      · exact ⟨.inr (.inr hu), hua⟩
    · rintro ⟨hu | rfl | hu, hua⟩
      · exact ⟨.inl hu, hua⟩
      · exact absurd hua hsa
      · exact ⟨.inr (.inr hu), hua⟩

/-- A replacement that changes no byte outside of `inside` extends what the search made of a
space. -/
theorem Extends.replace (h : Extends m m₁) (hm₁ : m₁.Tidy) (hs : m₁.sections = front ++ s :: back)
    (hb : t.base = s.base) (hz : t.size = s.size)
    (hbyte : ∀ a, ¬ inside a → t.byteAt? a = s.byteAt? a) :
    ExtendsOff inside m { m₁ with sections := front ++ t :: back } := by
  have hfor := sectionFor?_replace hm₁ hs hb hz
  have hfor₁ : ∀ a, s.contains a = true → m₁.sectionFor? a = some s := by
    intro a ha
    exact (sectionFor?_eq_some_iff hm₁.separated).2 ⟨by simp [hs], ha⟩
  generalize ({ m₁ with sections := front ++ t :: back } : AddressSpace) = m' at hfor ⊢
  have hmapped : ∀ a, m'.Mapped a ↔ m₁.Mapped a := by
    intro a
    rw [Mapped, Mapped, hfor a]
    by_cases ha : s.contains a = true
    · simp [ha, hfor₁ a ha]
    · simp [ha]
  have hbytes : ∀ a, ¬ inside a → m'.byteAt? a = m₁.byteAt? a := by
    intro a hina
    by_cases ha : s.contains a = true
    · have hsome := hfor a
      rw [if_pos ha] at hsome
      rw [byteAt?_of_sectionFor? hsome, byteAt?_of_sectionFor? (hfor₁ a ha), hbyte a hina]
    · have hsame := hfor a
      rw [if_neg ha] at hsame
      exact byteAt?_congr hsame
  refine ⟨?_, ?_, ?_⟩
  · intro a ha
    obtain ⟨ha₁, hold⟩ := h.kept a ha
    exact ⟨(hmapped a).2 ha₁, fun hina => (hbytes a hina).trans (hold id)⟩
  · intro a ha ha' hina
    rw [hbytes a hina]
    exact h.fresh a ha ((hmapped a).1 ha') id
  · intro hstrict a
    rw [hmapped a]
    exact h.fixed hstrict a

/-! ## Accesses -/

theorem flat_read_of_tidy (hm : m.Tidy) {size : Nat} {bytes : List Byte}
    (h : AddressSpace.read addr size m = .ok bytes m') :
    bytes.length = size ∧ (∀ a, Covers addr size a → m'.byteAt? a = bytes[a.toNat - addr.toNat]?) ∧
      Extends m m' := by
  obtain ⟨hserves, s, hs, hc, hread⟩ := read_eq_ok h
  have hm' : m'.Tidy := hserves.edits.tidy hm
  obtain ⟨hbase, hend, store, decoded, -, hbytes⟩ := Section.read_eq_ok hread
  refine ⟨by simp [hbytes, ByteStore.read], ?_, hserves.extends hm⟩
  intro a ha
  have hsa := (sectionFor?_eq_some_iff hm'.separated).2
    ⟨hs, Section.contains_of_covers hbase hend ha⟩
  rw [byteAt?_of_sectionFor? hsa]
  exact Section.byteAt?_of_read hread ha

theorem flat_write_of_tidy (hm : m.Tidy) {data : List Byte}
    (h : AddressSpace.write addr data m = .ok () m') :
    (∀ a, Covers addr data.length a → m'.byteAt? a = data[a.toNat - addr.toNat]?) ∧
      ExtendsOff (Covers addr data.length) m m' := by
  obtain ⟨m₁, front, s, t, back, hserves, hs, -, hwrite, rfl⟩ := write_eq_ok h
  have hm₁ : m₁.Tidy := hserves.edits.tidy hm
  obtain ⟨hb, hz⟩ := Section.size_eq_of_write hwrite
  obtain ⟨hbase, hend, -⟩ := Section.write_eq_ok hwrite
  refine ⟨?_, (hserves.extends hm).replace hm₁ hs hb hz ?_⟩
  · intro a ha
    have hfor := sectionFor?_replace hm₁ hs hb hz a
    rw [if_pos (Section.contains_of_covers hbase hend ha)] at hfor
    rw [byteAt?_of_sectionFor? hfor]
    exact Section.byteAt?_of_write hwrite ha
  · intro a ha
    exact Section.byteAt?_write_of_not_covers hwrite ha

theorem extends_fetch_of_tidy (hm : m.Tidy) (addr : Word) :
    Extends m (stateAfter (AddressSpace.fetch addr) m) := by
  simp only [stateAfter]
  split
  case h_1 h =>
    obtain ⟨m₁, front, s, t, back, hserves, hs, -, hfetch, rfl⟩ := fetch_eq_ok h
    obtain ⟨hb, hz⟩ := Section.size_eq_of_fetch hfetch
    refine (hserves.extends hm).replace (hserves.edits.tidy hm) hs hb hz ?_
    intro a _
    exact Section.byteAt?_of_fetch hfetch a
  case h_2 h => exact (fetch_eq_error h).extends hm

/-- In a space that was never given an empty section, the accesses are those of a flat memory. A
read that succeeds gives the bytes at its addresses, a write that succeeds leaves its data at its
addresses, and apart from that no access changes a byte: what it maps holds zero, and it maps
something only if the space maps on demand. -/
theorem flat_accesses_of_reachable (h : Reachable 1 m) (addr : Word) :
    (∀ size bytes m', AddressSpace.read addr size m = .ok bytes m' →
        bytes.length = size ∧
          (∀ a, Covers addr size a → m'.byteAt? a = bytes[a.toNat - addr.toNat]?) ∧ Extends m m') ∧
      (∀ data m', AddressSpace.write addr data m = .ok () m' →
        (∀ a, Covers addr data.length a → m'.byteAt? a = data[a.toNat - addr.toNat]?) ∧
          ExtendsOff (Covers addr data.length) m m') ∧
      (∀ size e m', AddressSpace.read addr size m = .error e m' → Extends m m') ∧
      (∀ data e m', AddressSpace.write addr data m = .error e m' → Extends m m') ∧
      Extends m (stateAfter (AddressSpace.fetch addr) m) := by
  have hm := h.tidy
  refine ⟨?_, ?_, ?_, ?_, extends_fetch_of_tidy hm addr⟩
  · intro size bytes m' hread
    exact flat_read_of_tidy hm hread
  · intro data m' hwrite
    exact flat_write_of_tidy hm hwrite
  · intro size e m' hread
    exact (read_eq_error hread).extends hm
  · intro data e m' hwrite
    exact (write_eq_error hwrite).extends hm

/-- A write and a read across the border of a window: the first succeeds, the second fails. -/
theorem flat_accesses_of_windowBelowData :
    Reachable 1 windowBelowData ∧
      (∃ m', AddressSpace.write 0x8004 [7, 9] windowBelowData = .ok () m' ∧
        m'.byteAt? 0x8005 = some 9 ∧ ExtendsOff (Covers 0x8004 2) windowBelowData m') ∧
      ∃ e m', AddressSpace.read 0x7FFE 4 windowBelowData = .error e m' ∧
        Extends windowBelowData m' := by
  have hflat := flat_accesses_of_reachable reachable_windowBelowData
  refine ⟨reachable_windowBelowData, ?_, ?_⟩
  · have hwrite := (hflat 0x8004).2.1 [7, 9] _ rfl
    exact ⟨_, rfl, hwrite.1 0x8005 (by decide), hwrite.2⟩
  · exact ⟨_, _, rfl, (hflat 0x7FFE).2.2.1 4 _ _ rfl⟩

end AddressSpace
end Riscv32
