import Riscv32.Csr.Store

/-!
# The kinds of the control registers

The kind of a register says what a read computes and what a write causes. It is given to the
register when the store is made, and no write changes it. The host may install functions that alter
what a register shows or stores; they change words, never a kind.

## Main definitions

* `Csr.Store.Virtual` — every register is of the kind that it has after reset.
* `Csr.Store.stored` — the word that a write stores.

## Main statements

* `Csr.Store.mem_initialKinds`, the registers that are not plain.
* `Csr.Store.set_eq`, a write by the kind of its register.
* `Csr.Store.Virtual.set`, the kinds after a write.
-/
namespace Riscv32.Csr.Store

variable {s : Store} {addr : Word}

/-- Every slot is of the kind that it has after reset. -/
def Virtual (s : Store) : Prop := ∀ addr, (s.slot addr).kind = (initial.slot addr).kind

theorem virtual_initial : initial.Virtual := fun _ => rfl

theorem kind_setRaw (s : Store) (addr v b : Word) :
    ((s.setRaw addr v).slot b).kind = (s.slot b).kind := by
  unfold setRaw
  rw [slot_setSlot]
  by_cases hb : addr = b
  · subst hb
    rw [if_pos rfl]
  · rw [if_neg hb]

theorem Virtual.setRaw (hs : s.Virtual) (addr v : Word) : (s.setRaw addr v).Virtual :=
  fun b => (kind_setRaw s addr v b).trans (hs b)

/-- A slot is of a registered kind or of the kind that it had before. -/
theorem kind_foldl_register (list : List (Word × Kind)) (s : Store) (b : Word) :
    (b, ((list.foldl (fun s (addr, kind) => s.register addr kind) s).slot b).kind) ∈ list ∨
      ((list.foldl (fun s (addr, kind) => s.register addr kind) s).slot b).kind
        = (s.slot b).kind := by
  induction list generalizing s with
  | nil => exact .inr rfl
  | cons p rest ih =>
    obtain ⟨addr, kind⟩ := p
    rw [List.foldl_cons]
    rcases ih (s.register addr kind) with hmem | heq
    · exact .inl (List.mem_cons_of_mem _ hmem)
    · rw [heq, register, slot_setSlot]
      by_cases hb : addr = b
      · subst hb
        rw [if_pos rfl]
        exact .inl List.mem_cons_self
      · rw [if_neg hb]
        exact .inr rfl

/-- After reset a register is plain unless it was registered. -/
theorem kind_initial (addr : Word) :
    (addr, (initial.slot addr).kind) ∈ initialKinds ∨ (initial.slot addr).kind = .plain := by
  have hempty : (empty.slot addr).kind = .plain := by
    rw [slot, empty, Std.TreeMap.getD_emptyc]
  have hinitial : (initial.slot addr).kind =
      ((initialKinds.foldl (fun s (addr, kind) => s.register addr kind) empty).slot addr).kind := by
    rw [initial, kind_setRaw, kind_setRaw, kind_setRaw]
  rw [hinitial, ← hempty]
  exact kind_foldl_register initialKinds empty addr

/-- A register that is not plain is one that was registered. -/
theorem mem_initialKinds (hs : s.Virtual) (hkind : (s.slot addr).kind ≠ .plain) :
    (addr, (s.slot addr).kind) ∈ initialKinds := by
  rw [hs addr] at hkind ⊢
  exact (kind_initial addr).resolve_right hkind

/-- The word that a write stores, in which a function of the host may have a say. -/
def stored (s : Store) (addr v : Word) : Word :=
  match (s.slot addr).setter with
  | none => v
  | some setter => setter addr (s.slot addr).raw v

theorem set_eq (s : Store) (addr v : Word) : s.set addr v =
    match (s.slot addr).kind with
    | .halt => (if s.stored addr v = 0 then .none else .halt (s.stored addr v),
        s.setRaw addr (s.stored addr v))
    | .timerCompareLow | .timerCompareHigh =>
      (.armTimer (s.setRaw addr (s.stored addr v)).timerCompare, s.setRaw addr (s.stored addr v))
    | .floatFlags =>
      (.none, (s.setRaw addr (s.stored addr v)).setField fcsr .floatFlags (s.stored addr v))
    | .floatRoundingMode =>
      (.none, (s.setRaw addr (s.stored addr v)).setField fcsr .roundingMode (s.stored addr v))
    | _ => (.none, s.setRaw addr (s.stored addr v)) := rfl

/-- A write makes no register of another kind. -/
theorem Virtual.set (hs : s.Virtual) (addr v : Word) : (s.set addr v).2.Virtual := by
  have hstored := hs.setRaw addr (s.stored addr v)
  rw [set_eq]
  cases (s.slot addr).kind with
  | floatFlags | floatRoundingMode => exact hstored.setRaw _ _
  | _ => exact hstored

/-- A write stores in the register itself and, for the two parts of `fcsr`, there. -/
theorem raw_set (s : Store) {addr b : Word} (v : Word) (haddr : addr ≠ b) (hfcsr : fcsr ≠ b) :
    (s.set addr v).2.raw b = s.raw b := by
  have hstored : (s.setRaw addr (s.stored addr v)).raw b = s.raw b := by
    rw [raw_setRaw, if_neg haddr]
  rw [set_eq]
  cases (s.slot addr).kind with
  | floatFlags | floatRoundingMode =>
    dsimp only [setField]
    rw [raw_setRaw, if_neg hfcsr, hstored]
  | _ => exact hstored

end Riscv32.Csr.Store
