import Mathlib.Data.List.Forall2
import Riscv32.Proofs.Memory.Loading

/-!
# Placement, once

A program is moved by the first placement that it has room for. Until then placements fail and
leave it as it was, and afterwards it stays where it is: the same placement does nothing and any
other one fails. Placement is made in steps, since the sections, the labels and the base are changed
one after the other, but nothing is changed before the last section was found to fit.

The move keeps the sections in order and their distances. A distance is negative where an empty
section shares the base of the section in front of it, so distances are integers.

## Main definitions

* `Program.place base` — a placement in steps, of which those before a failure stay done.
* `Program.answers p bases`, `Program.afterCalls p bases` — placements one after the other.
* `Program.Overflows p base` — a section of the program would leave the address space.
* `Program.ShiftedBy p base q` — `q` is `p` moved to `base`.
* `Program.PlacedOnce p bases answers q` — what placements in a row may answer and make of `p`.

## Main statements

* `Program.place_eq`, the steps of a placement against the placement as a whole.
* `Program.shiftedBy_shifted`, what a move makes of a program that was built.
* `Program.placed_once`, what placements in a row make of a program.
-/
namespace Riscv32

namespace Section

variable {s t : Section} {base : Word}

/-- Whether the section, moved up by `base`, would begin or end behind the address space. -/
def Leaves (base : Word) (s : Section) : Prop :=
  0xFFFFFFFF < s.base.toNat + base.toNat ∨ 0x100000000 < s.endAddress + base.toNat

theorem fitsAt_eq_true_iff : Program.fitsAt base s = true ↔ ¬ s.Leaves base := by
  rw [Program.fitsAt, Bool.and_eq_true, decide_eq_true_eq, decide_eq_true_eq, Leaves, not_or,
    addressCount]
  omega

/-- A section that was moved up by `base` and is the same apart from that. -/
structure Shift (base : Word) (s t : Section) : Prop where
  first : t.base.toNat = s.base.toNat + base.toNat
  last : t.endAddress = s.endAddress + base.toNat
  rest : t = { s with base := t.base }

theorem shift_moved (h : Program.fitsAt base s = true) : Shift base s (s.moved base) :=
  ⟨toNat_base_moved h, endAddress_moved h, rfl⟩

/-- The distance from the end of a section to the base of another one. -/
def gap (s t : Section) : Int := (t.base.toNat : Int) - s.endAddress

/-- The distances between sections that follow each other. -/
def gaps (l : List Section) : List Int := List.zipWith gap l l.tail

/-- Sections that are moved together keep their distances. -/
theorem gaps_of_shift {l l' : List Section} (h : List.Forall₂ (Shift base) l l') :
    gaps l' = gaps l := by
  induction h with
  | nil => rfl
  | cons hst hrest ih =>
    cases hrest with
    | nil => rfl
    | cons huv hrest' =>
      refine List.cons_eq_cons.2 ⟨?_, ih⟩
      rw [gap, gap, hst.last, huv.first]
      omega

end Section

namespace Program

variable {p q : Program} {base : Word} {name : String}

/-- Whether a section of the program would leave the address space at `base`. -/
def Overflows (p : Program) (base : Word) : Prop := ∃ s ∈ p.sections, s.Leaves base

theorem not_overflows_iff : ¬ p.Overflows base ↔ ∀ s ∈ p.sections, fitsAt base s = true := by
  simp only [Overflows, not_exists, not_and, Section.fitsAt_eq_true_iff]

/-! ## A placement in steps -/

/-- A step of a placement: it may fail, and what was done before it stays done. -/
abbrev Placer := EStateM PlacementError Program

/-- Fails if the section would leave the address space. -/
def requireFit (base : Word) (s : Section) : Placer Unit := do
  unless fitsAt base s do throw (.addressOverflow s.name)

/-- Moves the sections. -/
def moveSections (base : Word) : Placer Unit :=
  modify fun p => { p with sections := p.sections.map (Section.moved base) }

/-- Moves the labels that count from the base. -/
def moveLabels (base : Word) : Placer Unit :=
  modify fun p => { p with
    labels := p.labels.map fun name addr => if p.isAbsoluteLabel name then addr else addr + base }

/-- Remembers where the program lies. -/
def setBase (base : Word) : Placer Unit := modify fun p => { p with base := some base }

/-- A placement, step after step. -/
def place (base : Word) : Placer Unit := do
  let p ← get
  match p.base with
  | some fixed => unless fixed = base do throw (.relocation p.name fixed base)
  | none =>
    forM p.sections (requireFit base)
    moveSections base
    moveLabels base
    setBase base

/-- The sections are checked one after the other, and the first that does not fit is reported. -/
theorem forM_requireFit (base : Word) (l : List Section) (p : Program) :
    forM l (requireFit base) p =
      (l.find? fun s => !fitsAt base s).elim (.ok () p)
        fun s => .error (.addressOverflow s.name) p := by
  induction l with
  | nil => rfl
  | cons s rest ih =>
    rw [List.forM_cons]
    cases hfit : fitsAt base s with
    | true =>
      have hgo : requireFit base s p = .ok () p := by rw [requireFit, hfit]; rfl
      rw [bind_of_ok hgo, ih, List.find?_cons, hfit, Bool.not_true]
    | false =>
      have hstop : requireFit base s p = .error (.addressOverflow s.name) p := by
        rw [requireFit, hfit]; rfl
      rw [bind_of_error hstop, List.find?_cons, hfit, Bool.not_false, Option.elim_some]

/-- A placement in steps gives what a placement gives, and if it fails then before the first
change. -/
theorem place_eq (p : Program) (base : Word) :
    place base p = match p.placeAt base with
      | .ok q => .ok () q
      | .error e => .error e p := by
  have hstart : place base p = (match p.base with
    | some fixed => unless fixed = base do throw (.relocation p.name fixed base)
    | none => do
      forM p.sections (requireFit base)
      moveSections base
      moveLabels base
      setBase base : Placer Unit) p := rfl
  rw [hstart]
  cases hbase : p.base with
  | some fixed =>
    rw [placeAt_of_placed hbase]
    by_cases hsame : fixed = base
    · rw [if_pos hsame]
      simp only [hsame]
      rfl
    · rw [if_neg hsame]
      simp only [hsame]
      rfl
  | none =>
    have hchecks := forM_requireFit base p.sections p
    rw [placeAt_of_unplaced hbase]
    cases hfind : p.sections.find? fun s => !fitsAt base s with
    | some s =>
      rw [hfind, Option.elim_some] at hchecks
      exact bind_of_error hchecks
    | none =>
      rw [hfind, Option.elim_none] at hchecks
      exact bind_of_ok hchecks

/-! ## Placements in a row -/

/-- The answers to placements one after the other. -/
def answers (p : Program) : List Word → List (Except PlacementError Unit)
  | [] => []
  | base :: rest => resultOf (place base) p :: answers (stateAfter (place base) p) rest

/-- The program after placements one after the other. -/
def afterCalls (p : Program) (bases : List Word) : Program :=
  bases.foldl (fun p base => stateAfter (place base) p) p

/-- What a program that lies at `fixed` answers to a placement. -/
def again (name : String) (fixed base : Word) : Except PlacementError Unit :=
  if base = fixed then .ok () else .error (.relocation name fixed base)

/-- The answer to a placement of a program that overflows: the first section that leaves the address
space is reported. -/
inductive Overflowed (p : Program) (base : Word) : Except PlacementError Unit → Prop
  | first {front : List Section} {s : Section} {back : List Section} :
    p.sections = front ++ s :: back → (∀ t ∈ front, ¬ t.Leaves base) → s.Leaves base →
    Overflowed p base (.error (.addressOverflow s.name))

/-- `q` is `p` moved to `base`: the sections and all labels but the absolute ones count from the
base, and nothing else changed. -/
structure ShiftedBy (p : Program) (base : Word) (q : Program) : Prop where
  placed : q.base = some base
  name : q.name = p.name
  exported : q.exported = p.exported
  absolute : q.absolute = p.absolute
  sections : List.Forall₂ (Section.Shift base) p.sections q.sections
  sorted : Section.Sorted q.sections
  apart : Section.Apart q.sections
  gaps : Section.gaps q.sections = Section.gaps p.sections
  relative : ∀ name, p.isAbsoluteLabel name = false →
    q.labels[name]? = p.labels[name]?.map fun addr => addr + base
  fixed : ∀ name, p.isAbsoluteLabel name = true → q.labels[name]? = p.labels[name]?

/-- What placements in a row may answer and make of a program. -/
inductive PlacedOnce (p : Program) :
    List Word → List (Except PlacementError Unit) → Program → Prop
  | before {fixed : Word} (bases : List Word) : p.base = some fixed →
    PlacedOnce p bases (bases.map (again p.name fixed)) p
  | never {bases : List Word} {refusals : List (Except PlacementError Unit)} : p.base = none →
    List.Forall₂ (Overflowed p) bases refusals → PlacedOnce p bases refusals p
  | now {front : List Word} {base : Word} {refusals : List (Except PlacementError Unit)}
    {q : Program} (back : List Word) : p.base = none →
    List.Forall₂ (Overflowed p) front refusals → ¬ p.Overflows base → p.ShiftedBy base q →
    PlacedOnce p (front ++ base :: back) (refusals ++ .ok () :: back.map (again p.name base)) q

theorem shiftedBy_shifted (hbuilt : p.Built) (hbase : p.base = none) (h : ¬ p.Overflows base) :
    p.ShiftedBy base (p.shifted base) := by
  have hfits := not_overflows_iff.1 h
  have hsections : List.Forall₂ (Section.Shift base) p.sections
      (p.sections.map (Section.moved base)) :=
    List.forall₂_map_right_iff.2
      (List.forall₂_same.2 fun s hs => Section.shift_moved (hfits s hs))
  have horder := (hbuilt.placeAt (placeAt_of_fits hbase hfits)).order
  have hlabel (name : String) : (p.shifted base).labels[name]? =
      p.labels[name]?.map fun addr => if p.isAbsoluteLabel name then addr else addr + base :=
    Std.TreeMap.getElem?_map
  have hgaps := Section.gaps_of_shift hsections
  refine ⟨rfl, rfl, rfl, rfl, hsections, horder.1, horder.2, hgaps, ?_, ?_⟩
  · intro name hname
    rw [hlabel, hname]
    rfl
  · intro name hname
    simp only [hlabel, hname, if_true, Option.map_id']

/-- A placement of a program that lies somewhere leaves it there. -/
theorem call_of_placed {fixed : Word} (h : p.base = some fixed) (base : Word) :
    resultOf (place base) p = again p.name fixed base ∧ stateAfter (place base) p = p := by
  rw [resultOf, stateAfter, place_eq, placeAt_of_placed h, again]
  by_cases hsame : fixed = base
  · rw [if_pos hsame, if_pos hsame.symm]
    exact ⟨rfl, rfl⟩
  · rw [if_neg hsame, if_neg (Ne.symm hsame)]
    exact ⟨rfl, rfl⟩

/-- A program that lies somewhere stays there. -/
theorem calls_of_placed {fixed : Word} (h : p.base = some fixed) (bases : List Word) :
    p.answers bases = bases.map (again p.name fixed) ∧ p.afterCalls bases = p := by
  induction bases with
  | nil => exact ⟨rfl, rfl⟩
  | cons base rest ih =>
    obtain ⟨hanswer, hafter⟩ := call_of_placed h base
    rw [answers, afterCalls, List.foldl_cons, hanswer, hafter, ih.1, List.map_cons]
    exact ⟨rfl, ih.2⟩

/-- A placement that overflows is refused. -/
theorem call_of_overflows (hbase : p.base = none) (h : p.Overflows base) :
    Overflowed p base (resultOf (place base) p) ∧ stateAfter (place base) p = p := by
  rw [resultOf, stateAfter, place_eq, placeAt_of_unplaced hbase]
  cases hfind : p.sections.find? fun s => !fitsAt base s with
  | none =>
    refine absurd h (not_overflows_iff.2 ?_)
    intro s hs
    simpa using List.find?_eq_none.1 hfind s hs
  | some s =>
    obtain ⟨hs, front, back, hsplit, hfront⟩ := List.find?_eq_some_iff_append.1 hfind
    refine ⟨.first hsplit ?_ ?_, rfl⟩
    · intro t ht
      rw [← Section.fitsAt_eq_true_iff]
      simpa using hfront t ht
    · by_contra hstays
      rw [Section.fitsAt_eq_true_iff.2 hstays] at hs
      cases hs

/-- A placement with room for the program moves it. -/
theorem call_of_not_overflows (hbase : p.base = none) (h : ¬ p.Overflows base) :
    resultOf (place base) p = .ok () ∧ stateAfter (place base) p = p.shifted base := by
  rw [resultOf, stateAfter, place_eq, placeAt_of_fits hbase (not_overflows_iff.1 h)]
  exact ⟨rfl, rfl⟩

/-- A row of placements moves a program at the first one that it does not overflow at. -/
theorem placedOnce_calls (h : p.Built) (bases : List Word) :
    p.PlacedOnce bases (p.answers bases) (p.afterCalls bases) := by
  cases hbase : p.base with
  | some fixed =>
    obtain ⟨hanswers, hafter⟩ := calls_of_placed hbase bases
    rw [hanswers, hafter]
    exact .before bases hbase
  | none =>
    induction bases with
    | nil => exact .never hbase .nil
    | cons base rest ih =>
      rw [answers, afterCalls, List.foldl_cons]
      by_cases hover : p.Overflows base
      · -- nothing has changed, so the rest of the row finds the same program
        obtain ⟨hanswer, hafter⟩ := call_of_overflows hbase hover
        rw [hafter]
        rw [afterCalls] at ih
        generalize p.answers rest = later at ih ⊢
        generalize rest.foldl (fun p base => stateAfter (place base) p) p = q at ih ⊢
        cases ih with
        | before _ hfixed =>
          rw [hbase] at hfixed
          cases hfixed
        | never _ hrefusals => exact .never hbase (.cons hanswer hrefusals)
        | now back _ hrefusals hfit hshift =>
          exact .now back hbase (.cons hanswer hrefusals) hfit hshift
      · obtain ⟨hanswer, hafter⟩ := call_of_not_overflows hbase hover
        have hplaced : (p.shifted base).base = some base := rfl
        obtain ⟨hanswers, hstays⟩ := calls_of_placed hplaced rest
        rw [afterCalls] at hstays
        rw [hanswer, hafter, hanswers, hstays]
        exact .now rest hbase .nil hover (shiftedBy_shifted h hbase hover)

/-- A placement is refused for an overflow exactly if the program has no place and overflows. -/
theorem addressOverflow_iff (p : Program) (base : Word) :
    (∃ name, resultOf (place base) p = .error (.addressOverflow name)) ↔
      p.base = none ∧ p.Overflows base := by
  constructor
  · rintro ⟨name, hanswer⟩
    cases hbase : p.base with
    | some fixed =>
      rw [(call_of_placed hbase base).1, again] at hanswer
      split at hanswer <;> cases hanswer
    | none =>
      refine ⟨rfl, ?_⟩
      by_contra hover
      rw [(call_of_not_overflows hbase hover).1] at hanswer
      cases hanswer
  · rintro ⟨hbase, hover⟩
    have hrefused := (call_of_overflows hbase hover).1
    generalize resultOf (place base) p = answer at hrefused
    cases hrefused with
    | first => exact ⟨_, rfl⟩

/-- **Placement, once.** A program is moved by the first placement that it does not overflow at, and
by no other one. All others leave it as it is, whether they fail or not. -/
theorem placed_once (h : p.Built) :
    (∀ bases, p.PlacedOnce bases (p.answers bases) (p.afterCalls bases)) ∧
      ∀ base, (∃ name, resultOf (place base) p = .error (.addressOverflow name)) ↔
        p.base = none ∧ p.Overflows base :=
  ⟨placedOnce_calls h, addressOverflow_iff p⟩

/-- A program of sixteen bytes with an absolute label. -/
def withDevice : Program :=
  (AddressSpace.exporting "p" "main" 4).addAbsoluteLabel "device" 0x10000000

/-- The program does not fit eight bytes below the end of the address space, but sixteen bytes below
it does, and there it stays. -/
theorem placed_once_at_the_end :
    withDevice.Built ∧
      withDevice.PlacedOnce [0xFFFFFFF8, 0xFFFFFFF0, 0xFFFFFFF0, 0x1000]
        [.error (.addressOverflow ".text"), .ok (), .ok (),
          .error (.relocation "p" 0xFFFFFFF0 0x1000)]
        (withDevice.shifted 0xFFFFFFF0) ∧
      (withDevice.shifted 0xFFFFFFF0).labels.toList =
        [("device", 0x10000000), ("main", 0xFFFFFFF4)] := by
  have hbuilt : withDevice.Built :=
    .addAbsoluteLabel _ _ (AddressSpace.built_exporting "p" "main" 4)
  have hcalls := (placed_once hbuilt).1 [0xFFFFFFF8, 0xFFFFFFF0, 0xFFFFFFF0, 0x1000]
  exact ⟨hbuilt, hcalls, rfl⟩

end Program
end Riscv32
