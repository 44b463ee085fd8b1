import Mathlib.Algebra.Group.Nat.Defs
import Riscv32.Proofs.Memory.Coherence
import Riscv32.Proofs.Memory.Empty
import Riscv32.Proofs.Memory.Flat
import Riscv32.Proofs.Memory.Window

/-!
# Reads after a write

After a write that succeeds, a read that lies inside of what was written gives that part of it, and
a read of what was mapped before, and that has no byte in common with the write, gives what it gave
before. A number that was written gives its digits to the base of a byte.

The second holds in any space. The first needs that the section of the write also answers for the
rest of the bytes, which it does unless another section begins among them. In no reachable space
does a section begin inside of one that answers, empty ones included.

## Main definitions

* `AddressSpace.Unbroken m` — no section begins inside of what is left of one that answers.

## Main statements

* `ofLittleEndian_slice`, part of the bytes of a number.
* `AddressSpace.Reachable.unbroken`, the invariant.
* `AddressSpace.readNat_of_write`, a read inside of a write.
* `AddressSpace.read_of_apart`, a read apart from it.
-/
namespace Riscv32

/-! ## Part of the bytes of a number -/

theorem drop_littleEndian (k n v : Nat) :
    (littleEndian (k + n) v).drop k = littleEndian n (v / 256 ^ k) := by
  induction k generalizing v with
  | zero => simp
  | succ k ih =>
    rw [Nat.add_right_comm, littleEndian, List.drop_succ_cons, ih, Nat.div_div_eq_div_mul,
      Nat.pow_succ']

theorem take_littleEndian {c n : Nat} (h : c ≤ n) (v : Nat) :
    (littleEndian n v).take c = littleEndian c v := by
  induction c generalizing n v with
  | zero => rfl
  | succ c ih =>
    obtain ⟨n, rfl⟩ := Nat.exists_eq_add_of_le' h
    rw [← Nat.add_assoc, littleEndian, List.take_succ_cons, ih (by omega), littleEndian]

/-- Bytes of a number are its digits to the base of a byte. -/
theorem ofLittleEndian_slice {k c n : Nat} (h : k + c ≤ n) (v : Nat) :
    ofLittleEndian (((littleEndian n v).drop k).take c) = v / 256 ^ k % 256 ^ c := by
  obtain ⟨r, rfl⟩ := Nat.exists_eq_add_of_le (Nat.le_of_add_right_le h)
  rw [drop_littleEndian, take_littleEndian (by omega), ofLittleEndian_littleEndian,
    Nat.one_shiftLeft, Nat.pow_mul]

/-! ## Sections -/

namespace ByteStore

theorem read_write_of_le (store : ByteStore) (i k size : Nat) {data : List Byte}
    (h : k + size ≤ data.length) :
    (store.write i data).read (i + k) size = (data.drop k).take size := by
  refine List.ext_getElem? fun j => ?_
  rw [read, List.getElem?_map, List.getElem?_take]
  by_cases hj : j < size
  · have hin : k + j < data.length := by omega
    have hoffset : i + k + j - i = k + j := by omega
    rw [if_pos hj, List.getElem?_range' hj, Option.map_some, Nat.one_mul, get_write,
      if_pos (by omega), hoffset, List.getElem?_drop, List.getD_eq_getElem?_getD,
      List.getElem?_eq_getElem hin, Option.getD_some]
  · rw [if_neg hj, List.getElem?_eq_none (by rw [List.length_range']; omega), Option.map_none]

end ByteStore

namespace Section

variable {s t : Section} {addr a : Word} {size : Nat} {data : List Byte}

/-- A read inside of what was written gives that part of it. -/
theorem read_of_write (h : s.write addr data = .ok t) (hle : addr.toNat ≤ a.toNat)
    (hend : a.toNat + size ≤ addr.toNat + data.length) :
    t.read a size = .ok ((data.drop (a.toNat - addr.toNat)).take size) := by
  obtain ⟨hbase, hwritten, store, decoded, decoded', hcontents, rfl⟩ := write_eq_ok h
  obtain ⟨-, hsize⟩ := endAddress_write h
  have hoffset : a.toNat - s.base.toNat = addr.toNat - s.base.toNat + (a.toNat - addr.toNat) := by
    omega
  have hin : s.base ≤ a ∧ a.toNat + size ≤ Section.endAddress { s with
      contents := .bytes (store.write (addr.toNat - s.base.toNat) data) decoded' } := by
    rw [BitVec.le_def, hsize]
    omega
  rw [read, offset, if_pos hin, hoffset]
  exact congrArg Except.ok (store.read_write_of_le _ _ _ (by omega))

/-- A read that has no byte in common with the write is not affected by it. -/
theorem read_of_apart (h : s.write addr data = .ok t)
    (hapart : a.toNat + size ≤ addr.toNat ∨ addr.toNat + data.length ≤ a.toNat) :
    t.read a size = s.read a size := by
  obtain ⟨hbase, -, store, decoded, decoded', hcontents, rfl⟩ := write_eq_ok h
  obtain ⟨-, hsize⟩ := endAddress_write h
  have hoffset : Section.offset { s with
      contents := .bytes (store.write (addr.toNat - s.base.toNat) data) decoded' } a size .read =
      s.offset a size .read := by
    rw [offset, offset, hsize]
  rw [read, read, hoffset, hcontents]
  cases hread : s.offset a size .read with
  | error e => rfl
  | ok i =>
    obtain ⟨hlow, -, rfl⟩ := offset_eq_ok hread
    exact congrArg Except.ok (ByteStore.read_write_of_apart (by omega))

end Section

namespace AddressSpace

variable {m m' : AddressSpace} {addr a : Word} {s t : Section} {front back : List Section}
  {data bytes : List Byte} {size least : Nat} {access : AccessKind}

/-! ## The search after a replacement -/

/-- If a section gives way to one of the same place, that one may answer in its stead, and nothing
else changes. -/
theorem sectionFor?_replaced (hs : m.sections = front ++ s :: back)
    (hs' : m'.sections = front ++ t :: back) (hb : t.base = s.base) (hz : t.size = s.size)
    (a : Word) : m'.sectionFor? a = m.sectionFor? a ∨
      m.sectionFor? a = some s ∧ m'.sectionFor? a = some t := by
  have hcontains : t.contains a = s.contains a := Section.contains_congr hb hz a
  rw [sectionFor?, sectionFor?, below, below, hs, hs', List.takeWhile_append, List.takeWhile_append,
    List.takeWhile_cons, List.takeWhile_cons, hb]
  split
  case isTrue =>
    -- the two lists agree but for the section, which counts if it comes last
    split
    case isTrue =>
      rw [List.getLast?_append, List.getLast?_append, List.getLast?_cons, List.getLast?_cons]
      cases (back.takeWhile fun u => decide (u.base ≤ a)).getLast? with
      | some u => exact .inl rfl
      | none =>
        simp only [Option.getD_none, Option.some_or, Option.filter_some, hcontains]
        by_cases ha : s.contains a = true
        · rw [if_pos ha, if_pos ha]
          exact .inr ⟨rfl, rfl⟩
        · rw [if_neg ha, if_neg ha]
          exact .inl rfl
    case isFalse => exact .inl rfl
  case isFalse => exact .inl rfl

/-! ## Sections that nothing breaks into -/

/-- No section begins inside of what is left, from an address on, of the one that answers for it. -/
def Unbroken (m : AddressSpace) : Prop :=
  ∀ a s t, m.sectionFor? a = some s → t ∈ m.sections → a.toNat < t.base.toNat →
    s.endAddress ≤ t.base.toNat

theorem Unbroken.congr (hm : m.Unbroken) (h : m'.sections = m.sections) : m'.Unbroken := by
  intro a s t hs ht hlt
  rw [sectionFor?_congr h] at hs
  rw [h] at ht
  exact hm a s t hs ht hlt

theorem Unbroken.insertSection (hm : m.Unbroken) (hsorted : Section.Sorted m.sections)
    (hs : ∀ t ∈ m.sections, t.overlaps s = false) : (m.insertSection s).Unbroken := by
  intro a u t hu ht hlt
  have ht : t = s ∨ t ∈ m.sections := Section.mem_insertByBase.1 ht
  have hua := (Section.contains_iff u a).1 (mem_of_sectionFor? hu).2
  by_cases hle : s.base ≤ a
  · have hold : t ∈ m.sections := by
      refine ht.resolve_left ?_
      rintro rfl
      rw [BitVec.le_def] at hle
      omega
    rw [sectionFor?, below_insertSection_of_le hle, List.getLast?_append, List.getLast?_cons] at hu
    cases hlast : (m.between s.base a).getLast? with
    | some v =>
      refine hm a u t ?_ hold hlt
      rw [sectionFor?, below_eq_append hle, List.getLast?_append, hlast]
      rw [hlast] at hu
      exact hu
    | none =>
      -- the new section answers, and what begins behind the address keeps off it
      rw [hlast] at hu
      obtain rfl : s = u := Option.some.inj (Option.filter_eq_some_iff.1 hu).1
      have hend := Section.base_le_endAddress t
      rcases (Section.overlaps_eq_false_iff t s).1 (hs t hold) with hst | hts
      · exact hst
      · rw [BitVec.le_def] at hle
        omega
  · have hlow : a < s.base := BitVec.not_le.1 hle
    rw [sectionFor?, below_insertSection_of_lt hsorted hlow] at hu
    have hold : m.sectionFor? a = some u := hu
    rcases ht with rfl | ht
    · have hend := Section.base_le_endAddress t
      rcases (Section.overlaps_eq_false_iff u t).1 (hs u (mem_of_sectionFor? hold).1) with htu | hut
      · omega
      · exact hut
    · exact hm a u t hold ht hlt

theorem Unbroken.mapWindow (hm : m.Unbroken) (hsorted : Section.Sorted m.sections)
    (hs : m.sectionFor? addr = none) (haddr : addr.toNat < mappableEnd) :
    (m.mapWindow addr).Unbroken := by
  obtain ⟨hwindow, hbelow, habove⟩ := window_spec hs haddr
  rw [Section.contains_iff] at hwindow
  -- what begins at or below the address ends before the window, or begins before what does
  have hpast : ∀ t ∈ m.below addr, t.base.toNat ≤ (m.window addr).base.toNat := by
    have hsorted' : (m.below addr).Pairwise fun s t => s.base.toNat ≤ t.base.toNat :=
      hsorted.sublist (List.takeWhile_sublist _)
    refine Section.forall_mem_of_getLast? hsorted' ?_ fun t u htu hu => le_trans htu hu
    exact fun u hu => le_trans (Section.base_le_endAddress u) (hbelow u hu)
  intro a u t hu ht hlt
  have hua := (Section.contains_iff u a).1 (mem_of_sectionFor? hu).2
  have hmem : t = m.window addr ∨ t ∈ m.sections := by
    rw [AddressSpace.mapWindow, List.mem_append, List.mem_cons, or_left_comm, ← List.mem_append,
      below_append_above] at ht
    exact ht
  rcases sectionFor?_mapWindow_eq hs haddr a with hsame | ⟨-, hnew, ha⟩
  · rw [hsame] at hu
    rcases hmem with rfl | ht
    · -- the section ends before the last one below the window, or is that one
      have hle : a ≤ addr := BitVec.le_def.2 (by omega)
      obtain ⟨hlast, -⟩ := Option.filter_eq_some_iff.1 hu
      cases hbetween : (m.between a addr).getLast? with
      | none =>
        refine hbelow u ?_
        rw [below_eq_append hle, List.getLast?_append, hbetween, Option.none_or, hlast]
      | some v =>
        have hmem := List.mem_of_getLast? hbetween
        have hin : v ∈ m.sections := by
          rw [← m.below_append_above a]
          exact List.mem_append_right _ ((List.takeWhile_prefix _).subset hmem)
        have hend := hbelow v (by
          rw [below_eq_append hle, List.getLast?_append, hbetween, Option.some_or])
        have hbase := Section.base_le_endAddress v
        have hbefore := hm a u v hu hin (lt_base_of_mem_between hsorted hmem)
        omega
    · exact hm a u t hu ht hlt
  · rw [hnew] at hu
    cases hu
    have hold : t ∈ m.sections := by
      refine hmem.resolve_left ?_
      rintro rfl
      omega
    rw [← m.below_append_above addr] at hold
    rcases List.mem_append.1 hold with hold | hold
    · have hle := hpast t hold
      omega
    · have hsorted' : (m.above addr).Pairwise fun s t => s.base.toNat ≤ t.base.toNat :=
        hsorted.sublist (List.dropWhile_sublist _)
      exact Section.forall_mem_of_head? hsorted' habove (fun v w hvw hv => le_trans hv hvw) t hold

theorem Unbroken.replace (hm : m.Unbroken) (hs : m.sections = front ++ s :: back)
    (hs' : m'.sections = front ++ t :: back) (hb : t.base = s.base) (hz : t.size = s.size) :
    m'.Unbroken := by
  have hend : t.endAddress = s.endAddress := by rw [Section.endAddress, hb, hz, Section.endAddress]
  intro a u v hu hv hlt
  -- every place in the new list is a place in the old one
  obtain ⟨w, hw, hwbase⟩ : ∃ w ∈ m.sections, w.base = v.base := by
    rw [hs', List.mem_append, List.mem_cons] at hv
    rw [hs]
    rcases hv with hv | rfl | hv
    · exact ⟨v, List.mem_append_left _ hv, rfl⟩
    · exact ⟨s, List.mem_append_right _ List.mem_cons_self, hb.symm⟩
    · exact ⟨v, List.mem_append_right _ (List.mem_cons_of_mem _ hv), rfl⟩
  rw [← hwbase] at hlt ⊢
  rcases sectionFor?_replaced hs hs' hb hz a with hsame | ⟨hold, hnew⟩
  · rw [hsame] at hu
    exact hm a u w hu hw hlt
  · rw [hnew] at hu
    cases hu
    rw [hend]
    exact hm a s w hold hw hlt

theorem Edit.unbroken (h : Edit least m m') (hsorted : Section.Sorted m.sections)
    (hm : m.Unbroken) : m'.Unbroken := by
  cases h with
  | insert s _ hs h => exact (hm.insertSection hsorted hs).congr h
  | map addr hs haddr h => exact (hm.mapWindow hsorted hs haddr).congr h
  | replace front s t back hs hb hz h => exact hm.replace hs h hb hz
  | keep h => exact hm.congr h

theorem Edits.unbroken (h : Edits least m m') (hsorted : Section.Sorted m.sections)
    (hm : m.Unbroken) : m'.Unbroken := by
  induction h with
  | refl => exact hm
  | tail hbefore he ih => exact he.unbroken (Edits.sorted hbefore hsorted) ih

/-- In no reachable space does a section begin inside of one that answers. -/
theorem Reachable.unbroken (h : Reachable least m) : m.Unbroken := by
  induction h with
  | empty => exact fun a s t hs => absurd hs nofun
  | call hbefore hc ih => exact (edits_after hbefore.sorted hc).unbroken hbefore.sorted ih

/-! ## Accesses -/

/-- The section that an access is served by comes last among those not above its address. -/
theorem below_of_resolve {i : Nat} (h : m.resolve addr size access = .ok (i, s, m')) :
    Serves addr m m' ∧ ∃ front, m'.below addr = front ++ [s] ∧ i = front.length := by
  unfold resolve at h
  split at h
  case h_1 hlocate =>
    cases h
    obtain ⟨hs, rfl⟩ := locate?_eq_some_iff.1 hlocate
    obtain ⟨front, hbelow, -⟩ := split_of_sectionFor? hs
    refine ⟨.found, front, hbelow, ?_⟩
    rw [hbelow, List.length_append, List.length_singleton, Nat.add_sub_cancel]
  case h_2 hlocate =>
    have hs := locate?_eq_none_iff.1 hlocate
    split at h
    case isTrue hcond =>
      cases h
      rw [Bool.and_eq_true, decide_eq_true_eq] at hcond
      have hwindow := ((Section.contains_iff _ _).1 (window_spec hs hcond.2).1).1
      have hnil : m.between addr addr = [] :=
        List.self_eq_append_right.1 (below_eq_append (BitVec.le_refl addr))
      refine ⟨.mapped hs hcond.1 hcond.2, m.below addr, ?_, rfl⟩
      change (m.below addr ++ m.window addr :: m.above addr).takeWhile _ = _
      rw [List.takeWhile_append_of_pos (below_le_of_le (BitVec.le_refl addr)), List.takeWhile_cons,
        if_pos (decide_eq_true (BitVec.le_def.2 hwindow))]
      exact congrArg (fun l => m.below addr ++ m.window addr :: l) hnil
    case isFalse => cases h

/-- A write that succeeds replaces the section that it is served by. -/
theorem write_eq_ok_below (h : AddressSpace.write addr data m = .ok () m') :
    ∃ m₁ front s t, Serves addr m m₁ ∧ m₁.below addr = front ++ [s] ∧ s.write addr data = .ok t ∧
      m' = { m₁ with sections := front ++ t :: m₁.above addr } := by
  unfold AddressSpace.write at h
  split at h
  case h_1 => cases h
  case h_2 i s m₁ hresolve =>
    obtain ⟨hserves, front, hbelow, rfl⟩ := below_of_resolve hresolve
    split at h
    case h_1 => cases h
    case h_2 t hwrite =>
      cases h
      have hsections : m₁.sections = front ++ s :: m₁.above addr := by
        rw [← m₁.below_append_above addr, hbelow, List.append_assoc]
        rfl
      refine ⟨m₁, front, s, t, hserves, hbelow, hwrite, ?_⟩
      rw [← sections_setSection hsections]
      rfl

/-- The section of a write answers for all that was written. -/
theorem sectionFor?_of_write (hm : m.Unbroken) (hsorted : Section.Sorted m.sections)
    (hbelow : m.below addr = front ++ [s]) (hwrite : s.write addr data = .ok t)
    (ha : Covers addr data.length a) :
    ({ m with sections := front ++ t :: m.above addr } : AddressSpace).sectionFor? a = some t := by
  obtain ⟨hle, hlt⟩ := ha
  obtain ⟨hbase, hend, -⟩ := Section.write_eq_ok hwrite
  obtain ⟨htbase, htend⟩ := Section.endAddress_write hwrite
  have hlast : (m.below addr).getLast? = some s := by rw [hbelow, List.getLast?_concat]
  have hcontains : s.contains addr = true := (Section.contains_iff s addr).2 ⟨hbase, by omega⟩
  have hs : m.sectionFor? addr = some s := Option.filter_eq_some_iff.2 ⟨hlast, hcontains⟩
  -- nothing begins between the two addresses
  have hnil : (m.above addr).takeWhile (fun u => decide (u.base ≤ a)) = [] := by
    rw [List.eq_nil_iff_forall_not_mem]
    intro u hu
    have hmem : u ∈ m.above addr := (List.takeWhile_prefix _).subset hu
    have hin : u ∈ m.sections := (List.dropWhile_suffix _).subset hmem
    have hua : u.base.toNat ≤ a.toNat := Section.base_le_of_mem_takeWhile hu
    have hbehind := hm addr s u hs hin (Section.lt_base_of_mem_dropWhile hsorted hmem)
    omega
  have hfront : ∀ u ∈ front, decide (u.base ≤ a) = true := by
    intro u hu
    have hmem : u ∈ m.below addr := hbelow ▸ List.mem_append_left _ hu
    exact below_le_of_le (BitVec.le_def.2 hle) u hmem
  have hnew : ({ m with sections := front ++ t :: m.above addr } : AddressSpace).below a =
      front ++ [t] := by
    change (front ++ t :: m.above addr).takeWhile _ = _
    rw [List.takeWhile_append_of_pos hfront, List.takeWhile_cons,
      if_pos (decide_eq_true (BitVec.le_def.2 (by rw [htbase]; omega))), hnil]
  rw [sectionFor?, hnew, List.getLast?_concat]
  refine Option.filter_some_pos ?_
  rw [Section.contains_iff, htbase, htend]
  omega

/-- A read inside of a write gives that part of what was written. -/
theorem read_of_write (hm : Reachable least m) (h : AddressSpace.write addr data m = .ok () m')
    (hle : addr.toNat ≤ a.toNat) (hend : a.toNat + size ≤ addr.toNat + data.length)
    (hsize : 0 < size) :
    AddressSpace.read a size m' = .ok ((data.drop (a.toNat - addr.toNat)).take size) m' := by
  obtain ⟨m₁, front, s, t, hserves, hbelow, hwrite, rfl⟩ := write_eq_ok_below h
  have hedits : Edits least m m₁ := hserves.edits
  have hs := sectionFor?_of_write (hedits.unbroken hm.sorted hm.unbroken) (hedits.sorted hm.sorted)
    hbelow hwrite (a := a) ⟨hle, by omega⟩
  rw [read_of_mapped hs, Section.read_of_write hwrite hle hend]

/-- A number read inside of one that was written. -/
theorem readNat_of_write {count n v : Nat} (hm : Reachable least m)
    (h : writeNat addr n v m = .ok () m') (hle : addr.toNat ≤ a.toNat)
    (hend : a.toNat + count ≤ addr.toNat + n) (hcount : 0 < count) :
    readNat a count m' = .ok (v / 256 ^ (a.toNat - addr.toNat) % 256 ^ count) m' := by
  have hlength : (littleEndian n v).length = n := length_littleEndian n v
  have hread := read_of_write hm h hle (by rw [hlength]; exact hend) hcount
  rw [readNat, bind_of_ok hread, ofLittleEndian_slice (by omega)]
  rfl

/-- What was mapped before a write and lies apart from it reads as before. -/
theorem read_of_apart (h : AddressSpace.write addr data m = .ok () m')
    (hs : m.sectionFor? a = some s)
    (hapart : a.toNat + size ≤ addr.toNat ∨ addr.toNat + data.length ≤ a.toNat) :
    ∃ s', m'.sectionFor? a = some s' ∧ s'.read a size = s.read a size := by
  obtain ⟨m₁, front, u, t, back, hserves, hsections, -, hwrite, rfl⟩ := write_eq_ok h
  obtain ⟨hbase, hsize⟩ := Section.size_eq_of_write hwrite
  have hs₁ : m₁.sectionFor? a = some s := by
    cases hserves with
    | found => exact hs
    | mapped hnone _ haddr =>
      rcases sectionFor?_mapWindow_eq hnone haddr a with hsame | ⟨habsent, -⟩
      · exact hsame.trans hs
      · rw [hs] at habsent
        cases habsent
  have hreplaced : ({ m₁ with sections := front ++ t :: back } : AddressSpace).sections =
      front ++ t :: back := rfl
  rcases sectionFor?_replaced hsections hreplaced hbase hsize a with hsame | ⟨hold, hnew⟩
  · exact ⟨s, hsame.trans hs₁, rfl⟩
  · rw [hs₁, Option.some_inj] at hold
    subst hold
    exact ⟨t, hnew, Section.read_of_apart hwrite hapart⟩

theorem resultOf_readNat (a : Word) (count : Nat) (m : AddressSpace) :
    resultOf (readNat a count) m = (resultOf (AddressSpace.read a count) m).map ofLittleEndian := by
  rw [resultOf, resultOf]
  cases hread : AddressSpace.read a count m with
  | ok bytes m' =>
    rw [readNat, bind_of_ok hread]
    rfl
  | error e m' =>
    rw [readNat, bind_of_error hread]
    rfl

/-- To read what is mapped changes nothing. -/
theorem readNat_of_mapped (ha : m.Mapped a) (count : Nat) :
    readNat a count m =
      match resultOf (readNat a count) m with
      | .ok v => .ok v m
      | .error e => .error e m := by
  obtain ⟨s, hs⟩ := ha
  have hread := read_of_mapped hs count
  rw [resultOf_readNat, resultOf_read_of_mapped hs, readNat]
  cases hbytes : s.read a count with
  | ok bytes =>
    rw [hbytes] at hread
    exact bind_of_ok hread
  | error e =>
    rw [hbytes] at hread
    exact bind_of_error hread

/-- A number that was mapped before a write and lies apart from it reads as before. -/
theorem readNat_of_apart {count n v : Nat} (h : writeNat addr n v m = .ok () m') (ha : m.Mapped a)
    (hapart : a.toNat + count ≤ addr.toNat ∨ addr.toNat + n ≤ a.toNat) :
    m'.Mapped a ∧ resultOf (readNat a count) m' = resultOf (readNat a count) m := by
  obtain ⟨s, hs⟩ := ha
  have hlength : (littleEndian n v).length = n := length_littleEndian n v
  rw [← hlength] at hapart
  obtain ⟨s', hs', hread⟩ := read_of_apart h hs hapart
  refine ⟨⟨s', hs'⟩, ?_⟩
  rw [resultOf_readNat, resultOf_readNat, resultOf_read_of_mapped hs', resultOf_read_of_mapped hs,
    hread]

end AddressSpace
end Riscv32
