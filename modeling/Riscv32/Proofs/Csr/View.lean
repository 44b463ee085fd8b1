import Mathlib.Algebra.Group.Nat.Defs
import Riscv32.Hart.State
import Riscv32.Proofs.Csr.Kind
import Riscv32.Proofs.Csr.Status

/-!
# Views of a register

The accrued flags and the rounding mode are registers of their own that show a field of `fcsr`, and
the fields of `mstatus` are read and written one by one. All of them are views: a field of a
register, with a way to read it and a way to write it. The two parts of `fcsr` also have a word of
their own in the store, which a write fills and which is never what is read.

Views obey the laws of fields, in every store that the operations of a hart lead to. There the
registers still do what they do after reset, since only the host gives a register a function, and no
operation of a hart changes a kind.

## Main definitions

* `Csr.Store.Reached s` — writes and accrued flags lead to the store `s`.
* `Csr.View` — the views, each with its `register`, its `bits`, and how to `read` and `write` it.

## Main statements

* `Csr.View.read_eq`, what a view shows.
* `Csr.View.getElem?_write`, what a write through a view makes of each slot.
* `Csr.views_lawful`, the laws.
-/
namespace Riscv32

namespace BitField

/-- A field holds the bits that lie in it. -/
theorem get_eq_extractLsb' (f : BitField) (w : Word) :
    f.get w = (w.extractLsb' f.lo f.width).setWidth 32 := by
  apply BitVec.eq_of_getLsbD_eq
  intro i hi
  rw [getLsbD_get f w hi, BitVec.getLsbD_setWidth, BitVec.getLsbD_extractLsb', decide_eq_true hi,
    Bool.true_and]

/-- The bits that fit a field are those of the value below its width. -/
theorem toNat_and_mask (f : BitField) (hf : f.width ≤ 32) (v : Word) :
    (v &&& f.mask).toNat = v.toNat % 2 ^ f.width := by
  have hone : 0 < 2 ^ f.width := Nat.two_pow_pos f.width
  have hle : 2 ^ f.width ≤ 2 ^ 32 := Nat.pow_le_pow_right (by decide) hf
  have hmask : f.mask.toNat = 2 ^ f.width - 1 := by
    rw [mask, BitVec.toNat_ofNat, Nat.one_shiftLeft]
    exact Nat.mod_eq_of_lt (by omega)
  rw [BitVec.toNat_and, hmask, Nat.and_two_pow_sub_one_eq_mod]

end BitField

namespace Csr

namespace Store

variable {s : Store} {addr v b : Word} {kind : Kind}

/-- The stores that the operations of a hart lead to from the one after reset. -/
inductive Reached : Store → Prop
  | initial : Reached initial
  | set {s : Store} (addr v : Word) : Reached s → Reached (s.set addr v).2
  | setRaw {s : Store} (addr v : Word) : Reached s → Reached (s.setRaw addr v)
  | setMstatusField {s : Store} (f : MstatusField) (v : Word) :
    Reached s → Reached (s.setMstatusField f v)
  | accrue {h : Hart} (flags : Word) : Reached h.csrs → Reached (h.accrue flags).csrs

/-- The host alters neither what a register shows nor what it stores. -/
def Hostless (s : Store) : Prop :=
  ∀ addr, (s.slot addr).getter = none ∧ (s.slot addr).setter = none

theorem Hostless.setSlot (hs : s.Hostless) (addr : Word) {x : Slot}
    (hx : x.getter = none ∧ x.setter = none) : (s.setSlot addr x).Hostless := by
  intro b
  rw [slot_setSlot]
  split
  · exact hx
  · exact hs b

theorem Hostless.setRaw (hs : s.Hostless) (addr v : Word) : (s.setRaw addr v).Hostless :=
  hs.setSlot addr (hs addr)

theorem Hostless.foldl_register (hs : s.Hostless) (kinds : List (Word × Kind)) :
    (kinds.foldl (fun s (addr, kind) => s.register addr kind) s).Hostless :=
  List.foldlRecOn kinds _ hs fun _ hs p _ => hs.setSlot p.1 (hs p.1)

theorem hostless_initial : initial.Hostless := by
  have hempty : empty.Hostless := by
    intro addr
    rw [slot, empty, Std.TreeMap.getD_emptyc]
    exact ⟨rfl, rfl⟩
  exact (((hempty.foldl_register initialKinds).setRaw _ _).setRaw _ _).setRaw _ _

theorem Hostless.set (hs : s.Hostless) (addr v : Word) : (s.set addr v).2.Hostless := by
  have hstored := hs.setRaw addr (s.stored addr v)
  rw [set_eq]
  cases (s.slot addr).kind with
  | floatFlags | floatRoundingMode => exact hstored.setRaw _ _
  | _ => exact hstored

/-- No operation of a hart makes a register of another kind. -/
theorem Reached.virtual (hs : s.Reached) : s.Virtual := by
  induction hs with
  | initial => exact virtual_initial
  | set addr v _ ih => exact ih.set addr v
  | setRaw addr v _ ih => exact ih.setRaw addr v
  | setMstatusField f v _ ih => exact ih.setRaw mstatus _
  | accrue flags _ ih =>
    unfold Hart.accrue
    split
    · exact ih
    · exact ih.setRaw fcsr _

/-- No operation of a hart installs a function of the host. -/
theorem Reached.hostless (hs : s.Reached) : s.Hostless := by
  induction hs with
  | initial => exact hostless_initial
  | set addr v _ ih => exact ih.set addr v
  | setRaw addr v _ ih => exact ih.setRaw addr v
  | setMstatusField f v _ ih => exact ih.setRaw mstatus _
  | accrue flags _ ih =>
    unfold Hart.accrue
    split
    · exact ih
    · exact ih.setRaw fcsr _

/-- A slot is known but for its word. -/
theorem Reached.slot_eq (hs : s.Reached) (hkind : (Store.initial.slot b).kind = kind) :
    s.slot b = { raw := s.raw b, kind := kind } := by
  have hslot : s.slot b = ⟨s.raw b, (s.slot b).kind, (s.slot b).getter, (s.slot b).setter⟩ := rfl
  rw [hslot, hs.virtual b, hkind, (hs.hostless b).1, (hs.hostless b).2]

theorem getElem?_setRaw (s : Store) (addr v b : Word) : (s.setRaw addr v).slots[b]? =
    if addr = b then some { s.slot b with raw := v } else s.slots[b]? := by
  rw [setRaw, setSlot, Std.TreeMap.getElem?_insert]
  by_cases hb : addr = b
  · subst hb
    rw [if_pos rfl, if_pos Std.ReflCmp.compare_self]
  · rw [if_neg hb, if_neg (mt Std.compare_eq_iff_eq.mp hb)]

theorem slot_eq_getElem? (s : Store) (addr : Word) : s.slot addr = s.slots[addr]?.getD {} :=
  Std.TreeMap.getD_eq_getD_getElem?

end Store

/-! ## Views -/

/-- A field that is read and written on its own. -/
inductive View
  | floatFlags
  | roundingMode
  | status (f : MstatusField)
  deriving DecidableEq

namespace View

variable {s : Store} {x y : View} {v u b : Word}

/-- The register that the field is part of. -/
def register : View → Word
  | floatFlags | roundingMode => fcsr
  | status _ => mstatus

/-- The bits of the field. -/
def bits : View → BitField
  | floatFlags => .floatFlags
  | roundingMode => .roundingMode
  | status f => f.bits

/-- The register that stands for the view, if it has one of its own. -/
def address? : View → Option Word
  | floatFlags => some fflags
  | roundingMode => some frm
  | status _ => none

/-- Reads the field. -/
def read (x : View) (s : Store) (c : Counters) : Word :=
  match x with
  | floatFlags => s.get fflags c
  | roundingMode => s.get frm c
  | status f => s.mstatusField f

/-- Writes the field. -/
def write (x : View) (s : Store) (v : Word) : Store :=
  match x with
  | floatFlags => (s.set fflags v).2
  | roundingMode => (s.set frm v).2
  | status f => s.setMstatusField f v

theorem reached_write (hs : s.Reached) (x : View) (v : Word) : (x.write s v).Reached := by
  cases x with
  | floatFlags => exact .set fflags v hs
  | roundingMode => exact .set frm v hs
  | status f => exact .setMstatusField f v hs

/-- Every field lies in its register. -/
theorem fits (x : View) : x.bits.lo + x.bits.width ≤ 32 := by
  cases x with
  | floatFlags | roundingMode => decide
  | status f => exact f.fits

/-- Different fields of one register have no bit in common. -/
theorem apart (hne : x ≠ y) (hregister : x.register = y.register) : x.bits.Apart y.bits := by
  have hregisters : fcsr ≠ mstatus := by decide
  cases x with
  | status f =>
    cases y with
    | status g => exact MstatusField.apart fun heq => hne (congrArg status heq)
    | floatFlags | roundingMode => exact absurd hregister.symm hregisters
  | floatFlags =>
    cases y with
    | floatFlags => exact absurd rfl hne
    | roundingMode => decide
    | status g => exact absurd hregister hregisters
  | roundingMode =>
    cases y with
    | floatFlags => decide
    | roundingMode => exact absurd rfl hne
    | status g => exact absurd hregister hregisters

/-- A register that stands for a view is no register with fields. -/
theorem address?_ne (x : View) (hb : b ∈ [fcsr, mstatus]) : x.address? ≠ some b := by
  have hflags : fflags ≠ fcsr ∧ fflags ≠ mstatus ∧ frm ≠ fcsr ∧ frm ≠ mstatus := by decide
  rw [List.mem_cons, List.mem_singleton] at hb
  rintro heq
  cases x with
  | floatFlags =>
    obtain rfl : fflags = b := Option.some.inj heq
    exact hb.elim hflags.1 hflags.2.1
  | roundingMode =>
    obtain rfl : frm = b := Option.some.inj heq
    exact hb.elim hflags.2.2.1 hflags.2.2.2
  | status f => exact nomatch heq

theorem register_mem (x : View) : x.register ∈ [fcsr, mstatus] := by
  cases x with
  | floatFlags | roundingMode => exact List.mem_cons_self
  | status f => exact List.mem_cons_of_mem _ List.mem_cons_self

/-- Different views have different registers of their own. -/
theorem address?_ne_of_ne (hne : x ≠ y) (hx : x.address? = some b) : y.address? ≠ some b := by
  have hflags : fflags ≠ frm := by decide
  intro hy
  cases x with
  | status f => exact nomatch hx
  | floatFlags =>
    cases y with
    | floatFlags => exact hne rfl
    | roundingMode => exact hflags (Option.some.inj (hx.trans hy.symm))
    | status g => exact nomatch hy
  | roundingMode =>
    cases y with
    | floatFlags => exact hflags (Option.some.inj (hy.trans hx.symm))
    | roundingMode => exact hne rfl
    | status g => exact nomatch hy

theorem slot_fflags (hs : s.Reached) :
    s.slot fflags = { raw := s.raw fflags, kind := .floatFlags } := hs.slot_eq rfl

theorem slot_frm (hs : s.Reached) :
    s.slot frm = { raw := s.raw frm, kind := .floatRoundingMode } := hs.slot_eq rfl

/-- The registers with fields show the word that they store. -/
theorem get_register (hs : s.Reached) (hb : b ∈ [fcsr, mstatus]) (c : Counters) :
    s.get b c = s.raw b := by
  have hplain : (Store.initial.slot b).kind = .plain := by
    rw [List.mem_cons, List.mem_singleton] at hb
    rcases hb with rfl | rfl <;> rfl
  rw [Store.get, hs.slot_eq hplain]
  rfl

/-- A view shows the field of its register, whatever the word of its own is. -/
theorem read_eq (hs : s.Reached) (x : View) (c : Counters) :
    x.read s c = x.bits.get (s.raw x.register) := by
  cases x with
  | floatFlags =>
    change s.get fflags c = _
    rw [Store.get, slot_fflags hs]
    rfl
  | roundingMode =>
    change s.get frm c = _
    rw [Store.get, slot_frm hs]
    rfl
  | status f => rfl

theorem set_fflags (hs : s.Reached) (v : Word) :
    (s.set fflags v).2 = (s.setRaw fflags v).setField fcsr .floatFlags v := by
  have hslot := slot_fflags hs
  have hstored : s.stored fflags v = v := by rw [Store.stored, hslot]
  rw [Store.set_eq, hstored, hslot]

theorem set_frm (hs : s.Reached) (v : Word) :
    (s.set frm v).2 = (s.setRaw frm v).setField fcsr .roundingMode v := by
  have hslot := slot_frm hs
  have hstored : s.stored frm v = v := by rw [Store.stored, hslot]
  rw [Store.set_eq, hstored, hslot]

/-- A field that also has a word of its own: one write sets both. -/
theorem getElem?_setField_setRaw {own : Word} (s : Store) (f : BitField) (v b : Word)
    (hown : own ≠ fcsr) : ((s.setRaw own v).setField fcsr f v).slots[b]? =
      if fcsr = b then some { s.slot b with raw := f.set (s.raw b) v }
      else if own = b then some { s.slot b with raw := v }
      else s.slots[b]? := by
  rw [Store.setField, Store.getElem?_setRaw, Store.getElem?_setRaw, Store.raw_setRaw, if_neg hown]
  split
  case isTrue hb =>
    subst hb
    rw [Store.slot_setRaw_of_ne hown]
  case isFalse => rfl

/-- A write through a view sets the field in its register, fills the word of its own, and leaves
every other slot alone. -/
theorem getElem?_write (hs : s.Reached) (x : View) (v b : Word) : (x.write s v).slots[b]? =
    if x.register = b then some { s.slot b with raw := x.bits.set (s.raw b) v }
    else if x.address? = some b then some { s.slot b with raw := v }
    else s.slots[b]? := by
  cases x with
  | floatFlags =>
    change (s.set fflags v).2.slots[b]? = _
    rw [set_fflags hs, getElem?_setField_setRaw _ _ _ _ (by decide)]
    simp only [register, bits, address?, Option.some_inj]
  | roundingMode =>
    change (s.set frm v).2.slots[b]? = _
    rw [set_frm hs, getElem?_setField_setRaw _ _ _ _ (by decide)]
    simp only [register, bits, address?, Option.some_inj]
  | status f =>
    change (s.setRaw mstatus (f.bits.set (s.raw mstatus) v)).slots[b]? = _
    rw [Store.getElem?_setRaw]
    by_cases hb : mstatus = b
    · subst hb
      rfl
    · simp only [register, address?, if_neg hb, reduceCtorEq, if_false]

/-- What a write through a view makes of each slot. -/
theorem slot_write (hs : s.Reached) (x : View) (v b : Word) : (x.write s v).slot b =
    { s.slot b with raw :=
        if x.register = b then x.bits.set (s.raw b) v
        else if x.address? = some b then v else s.raw b } := by
  rw [Store.slot_eq_getElem?, getElem?_write hs]
  split
  · rfl
  · split
    · rfl
    · rw [← Store.slot_eq_getElem?]
      rfl

theorem raw_write (hs : s.Reached) (x : View) (v : Word) (hb : b ∈ [fcsr, mstatus]) :
    (x.write s v).raw b = if x.register = b then x.bits.set (s.raw b) v else s.raw b := by
  rw [Store.raw, slot_write hs, if_neg (x.address?_ne hb)]

/-- What is read back is what was written, cut to the width of the field. -/
theorem read_write (hs : s.Reached) (x : View) (v : Word) (c : Counters) :
    (x.read (x.write s v) c).toNat = v.toNat % 2 ^ x.bits.width := by
  have hwidth : x.bits.width ≤ 32 := Nat.le_of_add_left_le x.fits
  rw [read_eq (reached_write hs x v), raw_write hs x v x.register_mem, if_pos rfl,
    BitField.get_set _ x.fits, BitField.toNat_and_mask _ hwidth]

/-- A write changes no bit of a register with fields but those of its own field. -/
theorem getLsbD_write (hs : s.Reached) (x : View) (v : Word) (c : Counters)
    (hb : b ∈ [fcsr, mstatus]) {i : Nat}
    (hi : ¬ (x.register = b ∧ x.bits.lo ≤ i ∧ i < x.bits.lo + x.bits.width)) :
    ((x.write s v).get b c).getLsbD i = (s.get b c).getLsbD i := by
  rw [get_register (reached_write hs x v) hb, get_register hs hb, raw_write hs x v hb]
  split
  case isTrue hregister =>
    by_cases hword : i < 32
    · rw [BitField.getLsbD_set _ _ _ hword, if_neg fun hfield => hi ⟨hregister, hfield⟩]
    · rw [BitVec.getLsbD_of_ge _ _ (by omega), BitVec.getLsbD_of_ge _ _ (by omega)]
  case isFalse => rfl

/-- Of two writes to a field the second counts. -/
theorem write_write (hs : s.Reached) (x : View) (v u : Word) :
    (x.write (x.write s v) u).slots.Equiv (x.write s u).slots := by
  refine Std.TreeMap.Equiv.of_forall_constGet?_eq fun b => ?_
  rw [getElem?_write (reached_write hs x v), getElem?_write hs, getElem?_write hs]
  by_cases hb : x.register = b
  · simp only [if_pos hb, Store.raw, slot_write hs, BitField.set_set]
  · by_cases hown : x.address? = some b
    · simp only [if_neg hb, if_pos hown, slot_write hs]
    · simp only [if_neg hb, if_neg hown]

/-- Writes to different fields of a register may be made in either order. -/
theorem write_comm (hs : s.Reached) (hne : x ≠ y) (hregister : x.register = y.register)
    (v u : Word) : (x.write (y.write s v) u).slots.Equiv (y.write (x.write s u) v).slots := by
  refine Std.TreeMap.Equiv.of_forall_constGet?_eq fun b => ?_
  rw [getElem?_write (reached_write hs y v), getElem?_write (reached_write hs x u),
    getElem?_write hs, getElem?_write hs, ← hregister]
  by_cases hb : x.register = b
  · simp only [if_pos hb, Store.raw, slot_write hs, ← hregister,
      BitField.set_comm (apart hne hregister)]
  · by_cases hown : x.address? = some b
    · have hother : y.address? ≠ some b := address?_ne_of_ne hne hown
      simp only [if_neg hb, if_pos hown, if_neg hother, slot_write hs, ← hregister]
    · simp only [if_neg hb, if_neg hown, slot_write hs]

end View

/-- The laws of views, in every store that the operations of a hart lead to. The accrued flags and
the rounding mode are bits 4 to 0 and bits 7 to 5 of `fcsr`. For each view, a value that is written
is read back cut to the width of the field, no other bit of `fcsr` or of `mstatus` changes, and of
two writes the second counts; writes to different fields of one register commute. -/
theorem views_lawful (s : Store) (hs : s.Reached) (c : Counters) :
    s.get fflags c = ((s.get fcsr c).extractLsb' 0 5).setWidth 32 ∧
    s.get frm c = ((s.get fcsr c).extractLsb' 5 3).setWidth 32 ∧
    (∀ (x : View) (v : Word),
      (x.read (x.write s v) c).toNat = v.toNat % 2 ^ x.bits.width ∧
      (∀ b ∈ [fcsr, mstatus], ∀ i,
        ¬ (x.register = b ∧ x.bits.lo ≤ i ∧ i < x.bits.lo + x.bits.width) →
          ((x.write s v).get b c).getLsbD i = (s.get b c).getLsbD i) ∧
      ∀ u : Word, (x.write (x.write s v) u).slots.Equiv (x.write s u).slots) ∧
    ∀ x y : View, x ≠ y → x.register = y.register → ∀ v u : Word,
      (x.write (y.write s v) u).slots.Equiv (y.write (x.write s u) v).slots := by
  have hfcsr : s.get fcsr c = s.raw fcsr := View.get_register hs View.floatFlags.register_mem c
  refine ⟨?flags, ?mode, fun x v => ⟨?back, ?frame, ?twice⟩, ?commute⟩
  case flags =>
    rw [hfcsr]
    exact (View.read_eq hs .floatFlags c).trans (BitField.get_eq_extractLsb' .floatFlags _)
  case mode =>
    rw [hfcsr]
    exact (View.read_eq hs .roundingMode c).trans (BitField.get_eq_extractLsb' .roundingMode _)
  case back => exact View.read_write hs x v c
  case frame => exact fun b hb i hi => View.getLsbD_write hs x v c hb hi
  case twice => exact fun u => View.write_write hs x v u
  case commute => exact fun x y hne hregister v u => View.write_comm hs hne hregister v u

/-- A store whose word for the flags alone is stale: the flags and the rounding mode are those of
`fcsr`, and a value too wide for the flags is cut when it is read back. -/
theorem views_lawful_stale :
    ((Store.initial.set fflags 0x3F).2.setRaw fcsr 0xA5).raw fflags = 0x3F ∧
    ((Store.initial.set fflags 0x3F).2.setRaw fcsr 0xA5).get fflags {} = 0x05 ∧
    ((Store.initial.set fflags 0x3F).2.setRaw fcsr 0xA5).get frm {} = 0x05 ∧
    (View.floatFlags.read (View.floatFlags.write
      ((Store.initial.set fflags 0x3F).2.setRaw fcsr 0xA5) 0xFFFFFFF6) {}).toNat = 0x16 := by
  have hs : ((Store.initial.set fflags 0x3F).2.setRaw fcsr 0xA5).Reached :=
    .setRaw fcsr 0xA5 (.set fflags 0x3F .initial)
  obtain ⟨hflags, hmode, hview, -⟩ := views_lawful _ hs {}
  refine ⟨by decide +kernel, hflags.trans (by decide +kernel), hmode.trans (by decide +kernel), ?_⟩
  exact (hview .floatFlags 0xFFFFFFF6).1.trans (by decide)

end Csr
end Riscv32
