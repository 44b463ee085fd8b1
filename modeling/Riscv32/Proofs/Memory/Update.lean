import Riscv32.Proofs.Memory.AfterWrite

/-!
# A word that is read and written back

A word in memory is what a read of four bytes gives, in a window that the read maps if need be. A
read that succeeds and a write to the same address make a new word of an old one, and every other
byte is as it was. All of this holds in any space: an access is served by one section, whatever the
other sections are.

## Main definitions

* `AddressSpace.word? m addr` — the word at an address.
* `AddressSpace.Updates addr old new m m'` — the word at the address changed, and nothing else.

## Main statements

* `AddressSpace.Serves.extendsOff` and `AddressSpace.extendsOff_of_write`, what an access changes.
* `AddressSpace.word?_of_writeNat`, a word that was written.
* `AddressSpace.updates_of_readNat_of_writeNat`, a word that was read and written back.
* `AddressSpace.exists_writeNat_of_writeNat`, whether it can be written does not depend on the word.
-/
namespace Riscv32

namespace Section

variable {s t : Section} {addr : Word} {data data' : List Byte}

/-- Where one datum was written, another of its length can be written instead or afterwards. -/
theorem exists_write (h : s.write addr data = .ok t) (hlength : data'.length = data.length) :
    (∃ u, s.write addr data' = .ok u) ∧ ∃ u, t.write addr data' = .ok u := by
  obtain ⟨hbase, hend⟩ := endAddress_write h
  unfold write at h
  split at h
  case isTrue => cases h
  case isFalse hwritable =>
    split at h
    case h_1 => cases h
    case h_2 i store decoded hoffset hcontents =>
      cases h
      rw [offset] at hoffset
      rw [write, write, if_neg hwritable, if_neg hwritable, offset, offset, hend, hlength, hoffset,
        hcontents]
      exact ⟨⟨_, rfl⟩, _, rfl⟩
    case h_3 => cases h

end Section

namespace AddressSpace

variable {m m' m₁ : AddressSpace} {addr a : Word} {s t : Section} {front back : List Section}
  {data : List Byte} {inside : Word → Prop} {old new : Word}

/-! ## What an access changes -/

/-- The search gives no address another byte, in any space. -/
theorem Serves.extendsOff (h : Serves addr m m') : Extends m m' := by
  cases h with
  | found =>
    exact ⟨fun a ha => ⟨ha, fun _ => rfl⟩, fun a ha ha' => absurd ha' ha, fun _ a => Iff.rfl⟩
  | mapped hs hlazy haddr =>
    have hfor := sectionFor?_mapWindow_eq hs haddr
    refine ⟨?kept, ?fresh, ?fixed⟩
    case kept =>
      rintro a ⟨s, hsa⟩
      rcases hfor a with hsame | ⟨hnone, -⟩
      · exact ⟨⟨s, hsame.trans hsa⟩, fun _ => byteAt?_congr hsame⟩
      · rw [hsa] at hnone
        cases hnone
    case fresh =>
      rintro a ha ⟨s, hsa⟩ -
      rcases hfor a with hsame | ⟨-, hnew, hc⟩
      · exact absurd ⟨s, hsame.symm.trans hsa⟩ ha
      · rw [byteAt?_of_sectionFor? hnew, byteAt?_window hc]
    case fixed =>
      intro hstrict
      rw [hlazy] at hstrict
      cases hstrict

theorem Serves.lazyMapping_eq (h : Serves addr m m') : m'.lazyMapping = m.lazyMapping := by
  cases h <;> rfl

/-- A section that gives way to one of the same place changes no byte but those in which the two
differ. -/
theorem extendsOff_replaced (hs : m.sections = front ++ s :: back)
    (hs' : m'.sections = front ++ t :: back) (hb : t.base = s.base) (hz : t.size = s.size)
    (hbyte : ∀ a, ¬ inside a → t.byteAt? a = s.byteAt? a) : ExtendsOff inside m m' := by
  have hfor := sectionFor?_replaced hs hs' hb hz
  have hmapped (a : Word) : m'.Mapped a ↔ m.Mapped a := by
    rw [Mapped, Mapped]
    rcases hfor a with hsame | ⟨hold, hnew⟩
    · rw [hsame]
    · simp [hold, hnew]
  refine ⟨fun a ha => ⟨(hmapped a).2 ha, fun hina => ?_⟩,
    fun a ha ha' => absurd ((hmapped a).1 ha') ha, fun _ a => hmapped a⟩
  rcases hfor a with hsame | ⟨hold, hnew⟩
  · exact byteAt?_congr hsame
  · rw [byteAt?_of_sectionFor? hnew, byteAt?_of_sectionFor? hold, hbyte a hina]

/-- What is mapped on demand first does not matter to what is changed afterwards. -/
theorem Extends.trans (h : Extends m m₁) (hlazy : m₁.lazyMapping = m.lazyMapping)
    (h₁ : ExtendsOff inside m₁ m') : ExtendsOff inside m m' := by
  refine ⟨fun a ha => ?kept, fun a ha ha' hina => ?fresh, fun hstrict a => ?fixed⟩
  case kept =>
    obtain ⟨ha₁, hbyte⟩ := h.kept a ha
    obtain ⟨ha', hbyte'⟩ := h₁.kept a ha₁
    exact ⟨ha', fun hina => (hbyte' hina).trans (hbyte id)⟩
  case fresh =>
    by_cases ha₁ : m₁.Mapped a
    · rw [(h₁.kept a ha₁).2 hina, h.fresh a ha ha₁ id]
    · exact h₁.fresh a ha₁ ha' hina
  case fixed =>
    rw [h₁.fixed (hlazy.trans hstrict) a, h.fixed hstrict a]

/-- A write changes no byte but those that it covers, in any space. -/
theorem extendsOff_of_write (h : AddressSpace.write addr data m = .ok () m') :
    ExtendsOff (Covers addr data.length) m m' := by
  obtain ⟨m₁, front, s, t, back, hserves, hs, -, hwrite, rfl⟩ := write_eq_ok h
  obtain ⟨hb, hz⟩ := Section.size_eq_of_write hwrite
  refine hserves.extendsOff.trans hserves.lazyMapping_eq (extendsOff_replaced hs rfl hb hz ?_)
  exact fun a ha => Section.byteAt?_write_of_not_covers hwrite ha

/-- A write changes nothing but the sections. -/
theorem eq_with_sections_of_write (h : AddressSpace.write addr data m = .ok () m') :
    ∃ sections, m' = { m with sections } := by
  obtain ⟨m₁, front, s, t, back, hserves, -, -, -, rfl⟩ := write_eq_ok h
  obtain ⟨sections, rfl⟩ := hserves.eq_with_sections
  exact ⟨_, rfl⟩

/-! ## Words -/

/-- The word at an address, which a read of four bytes gives. -/
def word? (m : AddressSpace) (addr : Word) : Option Word :=
  (resultOf (readNat addr 4) m).toOption.map (BitVec.ofNat 32)

theorem word?_of_readNat {v : Nat} (h : readNat addr 4 m = .ok v m') :
    m.word? addr = some (BitVec.ofNat 32 v) := by
  rw [word?, resultOf, h]
  rfl

/-- The section of a write answers for the address of the write afterwards. -/
theorem sectionFor?_written (hbelow : m.below addr = front ++ [s])
    (hwrite : s.write addr data = .ok t) (hdata : 0 < data.length) :
    ({ m with sections := front ++ t :: m.above addr } : AddressSpace).sectionFor? addr =
      some t := by
  obtain ⟨hbase, hend, -⟩ := Section.write_eq_ok hwrite
  obtain ⟨htbase, htend⟩ := Section.endAddress_write hwrite
  have hfront : ∀ u ∈ front, decide (u.base ≤ addr) = true := by
    intro u hu
    exact below_le_of_le (BitVec.le_refl addr) u (hbelow ▸ List.mem_append_left _ hu)
  have hle : t.base ≤ addr := by
    rw [htbase, BitVec.le_def]
    exact hbase
  have hnil : m.between addr addr = [] :=
    List.self_eq_append_right.1 (below_eq_append (BitVec.le_refl addr))
  have hnew : ({ m with sections := front ++ t :: m.above addr } : AddressSpace).below addr =
      front ++ [t] := by
    change (front ++ t :: m.above addr).takeWhile _ = _
    rw [List.takeWhile_append_of_pos hfront, List.takeWhile_cons, if_pos (decide_eq_true hle)]
    exact congrArg (fun l => front ++ t :: l) hnil
  rw [sectionFor?, hnew, List.getLast?_concat]
  refine Option.filter_some_pos ?_
  rw [Section.contains_iff, htbase, htend]
  omega

/-- A word that was written is there. -/
theorem word?_of_writeNat {v : Nat} (h : writeNat addr 4 v m = .ok () m') :
    m'.word? addr = some (BitVec.ofNat 32 v) := by
  obtain ⟨m₁, front, s, t, -, hbelow, hwrite, rfl⟩ := write_eq_ok_below h
  have hlength : (littleEndian 4 v).length = 4 := length_littleEndian 4 v
  have hread : t.read addr 4 = .ok (littleEndian 4 v) := by
    rw [Section.read_of_write hwrite le_rfl (by rw [hlength]), Nat.sub_self, List.drop_zero,
      List.take_of_length_le (by rw [hlength])]
  rw [word?, resultOf_readNat,
    resultOf_read_of_mapped (sectionFor?_written hbelow hwrite (by rw [hlength]; decide)), hread]
  refine congrArg some (BitVec.eq_of_toNat_eq ?_)
  rw [ofLittleEndian_littleEndian, BitVec.toNat_ofNat, BitVec.toNat_ofNat]
  exact Nat.mod_mod v _

/-- The word at the address was `old` and is `new`, every other byte is as it was, and nothing but
the sections changed. -/
structure Updates (addr old new : Word) (m m' : AddressSpace) : Prop where
  before : m.word? addr = some old
  after : m'.word? addr = some new
  elsewhere : ExtendsOff (Covers addr 4) m m'
  sections : ∃ sections, m' = { m with sections }

/-- A word that is read and written back. -/
theorem updates_of_readNat_of_writeNat {v : Nat} (hread : readNat addr 4 m = .ok v m₁)
    (hwrite : writeNat addr 4 new.toNat m₁ = .ok () m') :
    Updates addr (BitVec.ofNat 32 v) new m m' := by
  obtain ⟨bytes, hbytes, -⟩ := readNat_eq_ok hread
  have hserves := (read_eq_ok hbytes).1
  have hoff := extendsOff_of_write hwrite
  rw [length_littleEndian] at hoff
  obtain ⟨sections, hsame⟩ := eq_with_sections_of_write hwrite
  obtain ⟨sections₁, rfl⟩ := hserves.eq_with_sections
  constructor
  · exact word?_of_readNat hread
  · rw [word?_of_writeNat hwrite, BitVec.ofNat_toNat, BitVec.setWidth_eq]
  · exact hserves.extendsOff.trans hserves.lazyMapping_eq hoff
  · exact ⟨sections, hsame⟩

/-- Where one datum was written, another of its length can be written instead or afterwards. -/
theorem exists_write (h : AddressSpace.write addr data m = .ok () m') (hdata : 0 < data.length)
    {data' : List Byte} (hlength : data'.length = data.length) :
    (∃ k, AddressSpace.write addr data' m = .ok () k) ∧
      ∃ k, AddressSpace.write addr data' m' = .ok () k := by
  constructor
  · unfold AddressSpace.write at h ⊢
    rw [hlength]
    split at h
    case h_1 => cases h
    case h_2 i s m₁ hresolve =>
      split at h
      case h_1 => cases h
      case h_2 t hwrite =>
        obtain ⟨u, hu⟩ := (Section.exists_write hwrite hlength).1
        simp only [hu]
        exact ⟨_, rfl⟩
  · obtain ⟨m₁, front, s, t, -, hbelow, hwrite, rfl⟩ := write_eq_ok_below h
    obtain ⟨u, hu⟩ := (Section.exists_write hwrite hlength).2
    simp only [AddressSpace.write, resolve_of_mapped (sectionFor?_written hbelow hwrite hdata), hu]
    exact ⟨_, rfl⟩

/-- Where one word was written, another can be written instead. It can then be read, and any word
be written over it. -/
theorem exists_writeNat_of_writeNat {v : Nat} (h : writeNat addr 4 v m = .ok () m') (w : Nat) :
    ∃ k, writeNat addr 4 w m = .ok () k ∧ (∃ x, readNat addr 4 k = .ok x k) ∧
      ∀ w', ∃ k', writeNat addr 4 w' k = .ok () k' := by
  have hlength (x y : Nat) : (littleEndian 4 x).length = (littleEndian 4 y).length := by
    rw [length_littleEndian, length_littleEndian]
  have hpos (x : Nat) : 0 < (littleEndian 4 x).length := by
    rw [length_littleEndian]
    decide
  obtain ⟨k, hk⟩ := (exists_write h (hpos v) (hlength w v)).1
  refine ⟨k, hk, ?_, fun w' => (exists_write hk (hpos w) (hlength w' w)).2⟩
  obtain ⟨m₁, front, s, t, -, hbelow, hwrite, rfl⟩ := write_eq_ok_below hk
  have hread := readNat_of_mapped ⟨t, sectionFor?_written hbelow hwrite (hpos w)⟩ 4
  have hword := word?_of_writeNat hk
  rw [word?] at hword
  cases hresult : resultOf (readNat addr 4) { m₁ with sections := front ++ t :: m₁.above addr } with
  | ok x =>
    rw [hresult] at hread
    exact ⟨x, hread⟩
  | error e =>
    rw [hresult] at hword
    cases hword

end AddressSpace
end Riscv32
