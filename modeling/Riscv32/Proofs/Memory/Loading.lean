import Riscv32.Proofs.Memory.Reachable

/-!
# What a load does

A load either fails and leaves the space alone, or it takes in the whole of a program. It moves the
sections of a program that has no place yet, with the labels that count from them, and takes a
program that has a place as it is. The sections go between those that are there by their bases, the
labels become those of the last program, and the exported labels become global. All of this is done
one by one, but nothing before the last check.

Whether a section fits into the address space is asked only of a program that is moved. A program
that has a place is taken in at it, so its sections stay below the end of the address space exactly
if they were built that way.

## Main definitions

* `Program.sectionsAt base`, `Program.labelAt? base` — the sections and the labels of a program that
  lies at `base`.
* `AddressSpace.TakesIn m p base m'` — `m'` is `m` with the program `p` at `base`.
* `AddressSpace.Loader.load` — a load in steps, of which those before a failure stay done.
* `AddressSpace.LoadsInside m p requested` — a load keeps the program inside of the address space.

## Main statements

* `Program.placeAt_spec`, what placement makes of a program.
* `AddressSpace.refusal?_cases`, why a placed program is refused.
* `AddressSpace.Loader.load_cases`, the steps of a load against the load as a whole.
* `AddressSpace.load_all_or_nothing`, what a load makes of a reachable space.
* `AddressSpace.loads_inside_iff`, the programs that a load keeps inside of the address space.
-/
namespace Riscv32

namespace Section

/-- A section that goes in leaves the others in their order. -/
theorem sublist_insertByBase (s : Section) (l : List Section) : l.Sublist (s.insertByBase l) := by
  have hparts := List.Sublist.append (.refl (l.takeWhile fun t => decide (t.base ≤ s.base)))
    (.cons s (.refl (l.dropWhile fun t => decide (t.base ≤ s.base))))
  rw [List.takeWhile_append_dropWhile] at hparts
  rw [insertByBase_eq]
  exact hparts

theorem perm_insertByBase (s : Section) (l : List Section) : (s.insertByBase l).Perm (s :: l) := by
  rw [insertByBase_eq]
  refine List.perm_middle.trans ?_
  rw [List.takeWhile_append_dropWhile]

end Section

namespace Program

variable {p q : Program} {base fixed : Word} {name : String}

/-- The sections of the program when it lies at `base`. -/
def sectionsAt (p : Program) (base : Word) : List Section :=
  if p.isPlaced then p.sections else p.sections.map (Section.moved base)

/-- A label of the program when it lies at `base`. -/
def labelAt? (p : Program) (base : Word) (name : String) : Option Word :=
  p.labels[name]?.map fun addr =>
    if p.isPlaced || p.isAbsoluteLabel name then addr else addr + base

/-- The end of a section of the program when the program lies at `base`. -/
def endAt (p : Program) (base : Word) (s : Section) : Nat :=
  if p.isPlaced then s.endAddress else s.endAddress + base.toNat

theorem isPlaced_of_some (h : p.base = some fixed) : p.isPlaced = true := by
  rw [isPlaced, h]
  rfl

theorem isPlaced_of_none (h : p.base = none) : p.isPlaced = false := by
  rw [isPlaced, h]
  rfl

theorem sectionsAt_of_placed (h : p.base = some fixed) : p.sectionsAt base = p.sections :=
  if_pos (isPlaced_of_some h)

theorem sectionsAt_of_unplaced (h : p.base = none) :
    p.sectionsAt base = p.sections.map (Section.moved base) := by
  rw [sectionsAt, isPlaced_of_none h]
  rfl

theorem endAt_of_placed (h : p.base = some fixed) (s : Section) :
    p.endAt base s = s.endAddress :=
  if_pos (isPlaced_of_some h)

theorem endAt_of_unplaced (h : p.base = none) (s : Section) :
    p.endAt base s = s.endAddress + base.toNat := by
  rw [endAt, isPlaced_of_none h]
  rfl

theorem placeAt_of_placed (h : p.base = some fixed) : p.placeAt base =
    if fixed = base then .ok p else .error (.relocation p.name fixed base) := by
  rw [placeAt, h]

theorem placeAt_of_unplaced (h : p.base = none) : p.placeAt base =
    (p.sections.find? fun s => !fitsAt base s).elim (.ok (p.shifted base))
      fun s => .error (.addressOverflow s.name) := by
  unfold placeAt
  rw [h]
  cases p.sections.find? fun s => !fitsAt base s with
  | none => rfl
  | some s => rfl

/-- What placement at `base` makes of a program. -/
structure PlacedAt (p : Program) (base : Word) (q : Program) : Prop where
  name : q.name = p.name
  exported : q.exported = p.exported
  sections : q.sections = p.sectionsAt base
  labels : ∀ name : String, q.labels[name]? = p.labelAt? base name
  stays : ∀ fixed, p.base = some fixed → base = fixed
  fits : p.base = none → ∀ s ∈ p.sections, fitsAt base s = true

theorem placeAt_spec (h : p.placeAt base = .ok q) : p.PlacedAt base q := by
  cases hbase : p.base with
  | some fixed =>
    rw [placeAt_of_placed hbase] at h
    split at h
    case isTrue heq =>
      cases h
      refine ⟨rfl, rfl, (sectionsAt_of_placed hbase).symm, ?_, ?_, ?_⟩
      · intro name
        simp [labelAt?, isPlaced_of_some hbase]
      · intro fixed' hfixed
        rw [hbase, Option.some.injEq] at hfixed
        rw [← hfixed, heq]
      · intro hnone
        rw [hbase] at hnone
        cases hnone
    case isFalse => cases h
  | none =>
    rw [placeAt_of_unplaced hbase] at h
    cases hfind : p.sections.find? fun s => !fitsAt base s with
    | some s =>
      rw [hfind, Option.elim_some] at h
      cases h
    | none =>
      rw [hfind, Option.elim_none] at h
      cases h
      refine ⟨rfl, rfl, (sectionsAt_of_unplaced hbase).symm, ?_, ?_, ?_⟩
      · intro name
        simp only [labelAt?, isPlaced_of_none hbase, Bool.false_or]
        exact Std.TreeMap.getElem?_map
      · intro fixed hfixed
        rw [hbase] at hfixed
        cases hfixed
      · intro _ s hs
        simpa using List.find?_eq_none.1 hfind s hs

/-- A movable program goes wherever all of it fits. -/
theorem placeAt_of_fits (hnone : p.base = none) (h : ∀ s ∈ p.sections, fitsAt base s = true) :
    p.placeAt base = .ok (p.shifted base) := by
  have hfind : (p.sections.find? fun s => !fitsAt base s) = none := by
    rw [List.find?_eq_none]
    intro s hs
    rw [h s hs]
    decide
  rw [placeAt_of_unplaced hnone, hfind, Option.elim_none]

/-- Placement of a movable program fails only for a section that does not fit. -/
theorem addressOverflow_of_placeAt {e : PlacementError} (hnone : p.base = none)
    (h : p.placeAt base = .error e) :
    ∃ s ∈ p.sections, fitsAt base s = false ∧ e = .addressOverflow s.name := by
  rw [placeAt_of_unplaced hnone] at h
  cases hfind : p.sections.find? fun s => !fitsAt base s with
  | some s =>
    rw [hfind, Option.elim_some] at h
    cases h
    have hnot := List.find?_some hfind
    rw [Bool.not_eq_true'] at hnot
    exact ⟨s, List.mem_of_find?_eq_some hfind, hnot, rfl⟩
  | none =>
    rw [hfind, Option.elim_none] at h
    cases h

end Program

namespace AddressSpace

variable {m m' : AddressSpace} {p q : Program} {requested : Option Word} {base : Word}

theorem perm_insertAll (m : AddressSpace) (new : List Section) :
    (m.insertAll new).sections.Perm (m.sections ++ new) := by
  induction new generalizing m with
  | nil => rw [List.append_nil]; exact .refl _
  | cons s rest ih =>
    refine (ih (m.insertSection s)).trans ?_
    refine ((Section.perm_insertByBase s m.sections).append_right rest).trans ?_
    exact List.perm_middle.symm

/-- The sections that were there stay in their order. -/
theorem sublist_insertAll (m : AddressSpace) (new : List Section) :
    m.sections.Sublist (m.insertAll new).sections := by
  induction new generalizing m with
  | nil => exact .refl _
  | cons s rest ih =>
    exact (Section.sublist_insertByBase s m.sections).trans (ih (m.insertSection s))

/-- Exports that are labels become global one by one. -/
private theorem getElem?_foldl_export (labels : SymbolTable) (names : List String)
    (globals : SymbolTable) (name : String) :
    (names.foldl (fun (globals : SymbolTable) name =>
      match labels[name]? with
      | some addr => globals.insert name addr
      | none => globals) globals)[name]? =
      (if name ∈ names then labels[name]? else none).or globals[name]? := by
  induction names generalizing globals with
  | nil => simp
  | cons first rest ih =>
    rw [List.foldl_cons, ih]
    cases hfirst : labels[first]? with
    | none =>
      by_cases heq : name = first
      · simp [heq, hfirst]
      · simp [heq]
    | some addr =>
      by_cases heq : name = first
      · by_cases hmem : first ∈ rest <;> simp [heq, hfirst, hmem]
      · have hne : ¬ first = name := fun h => heq h.symm
        simp [heq, hne, Std.TreeMap.getElem?_insert]

/-- The exports of a program become global with the addresses that its labels have. -/
theorem getElem?_globalsWith (m : AddressSpace) (p : Program) (name : String) :
    (m.globalsWith p)[name]? =
      (if name ∈ p.exported then p.labels[name]? else none).or m.globals[name]? := by
  have hfold := getElem?_foldl_export p.labels p.exported.toList m.globals name
  simp only [Std.TreeSet.mem_toList] at hfold
  exact hfold

/-- What a load that gives `base` makes of a space: the sections of the program at `base` are among
the old ones in the order of the bases, its labels are those of the last program, and the exports
that are labels are new global symbols. -/
structure TakesIn (m : AddressSpace) (p : Program) (base : Word) (m' : AddressSpace) : Prop where
  sections : m'.sections.Perm (m.sections ++ p.sectionsAt base)
  sorted : Section.Sorted m'.sections
  untouched : m.sections.Sublist m'.sections
  unwrapped : p.base = none → ∀ s ∈ p.sections,
    (s.moved base).base.toNat = s.base.toNat + base.toNat ∧
      (s.moved base).endAddress = s.endAddress + base.toNat
  programs : ∃ labels, m'.programs = m.programs ++ [⟨p.name, base, labels⟩] ∧
    ∀ name : String, labels[name]? = p.labelAt? base name
  globals : ∀ name : String, m'.globals[name]? =
    (if name ∈ p.exported then p.labelAt? base name else none).or m.globals[name]?
  fresh : ∀ name ∈ p.exported, m.globals[name]? = none
  stays : ∀ fixed, p.base = some fixed → base = fixed
  settings : m'.lazyMapping = m.lazyMapping ∧ m'.loadAlignment = m.loadAlignment

/-- A placed program is refused for a section that meets another one or, if there is none, for an
export that is global already. -/
theorem refusal?_cases {e : PlacementError} (h : m.refusal? p = some e) :
    (∃ s ∈ p.sections, ∃ t ∈ m.sections, t.overlaps s = true ∧
      e = .overlap s.name s.base s.size t.name) ∨
      (∀ s ∈ p.sections, ∀ t ∈ m.sections, t.overlaps s = false) ∧
        ∃ name ∈ p.exported, name ∈ m.globals ∧ e = .duplicateGlobal name := by
  rw [refusal?, Option.or_eq_some_iff, List.findSome?_eq_none_iff] at h
  rcases h with hoverlap | ⟨hnone, hglobal⟩
  · obtain ⟨s, hs, hconflict⟩ := List.exists_of_findSome?_eq_some hoverlap
    obtain ⟨t, hfind, rfl⟩ := Option.map_eq_some_iff.1 hconflict
    have hmeets := List.find?_some hfind
    exact .inl ⟨s, hs, t, List.mem_of_find?_eq_some hfind, hmeets, rfl⟩
  · obtain ⟨name, hfind, rfl⟩ := Option.map_eq_some_iff.1 hglobal
    have hexported := Std.TreeSet.mem_toList.1 (List.mem_of_find?_eq_some hfind)
    have hmem := List.find?_some hfind
    refine .inr ⟨?_, name, hexported, hmem, rfl⟩
    intro s hs
    exact (Section.conflict?_eq_none_iff s _).1 (hnone s hs)

/-- No export of a program that is taken in was global before. -/
theorem fresh_of_refusal? (h : m.refusal? p = none) :
    ∀ name ∈ p.exported, m.globals[name]? = none := by
  intro name hname
  rw [refusal?, Option.or_eq_none_iff, Option.map_eq_none_iff] at h
  have hnot := List.find?_eq_none.1 h.2 name (Std.TreeSet.mem_toList.2 hname)
  exact Std.TreeMap.getElem?_eq_none hnot

theorem TakesIn.of_placedAt (hm : Section.Sorted m.sections) (hplace : p.PlacedAt base q)
    (hrefuse : m.refusal? q = none) : TakesIn m p base (m.withProgram q base) where
  sections := hplace.sections ▸ perm_insertAll m q.sections
  sorted := sorted_insertAll hm q.sections
  untouched := sublist_insertAll m q.sections
  unwrapped hbase s hs :=
    have hfit := hplace.fits hbase s hs
    ⟨Section.toNat_base_moved hfit, Section.endAddress_moved hfit⟩
  programs := ⟨q.labels, by rw [withProgram, hplace.name], hplace.labels⟩
  globals name := by
    have hglobal := getElem?_globalsWith m q name
    rw [hplace.exported, hplace.labels name] at hglobal
    exact hglobal
  fresh name hname := fresh_of_refusal? hrefuse name (hplace.exported ▸ hname)
  stays := hplace.stays
  settings := ⟨rfl, rfl⟩

/-! ## A load in steps -/

/-- A step of a load: it may fail, and what was done before it stays done. -/
abbrev Loader := EStateM PlacementError AddressSpace

namespace Loader

/-- Does what may fail, and leaves the space alone. -/
def attempt {α : Type} (r : AddressSpace → Except PlacementError α) : Loader α := fun m =>
  match r m with
  | .ok a => .ok a m
  | .error e => .error e m

/-- Fails if something is wrong with the space, and leaves it alone. -/
def check (wrong? : AddressSpace → Option PlacementError) : Loader Unit := fun m =>
  match wrong? m with
  | some e => .error e m
  | none => .ok () m

/-- Changes the space. -/
def change (f : AddressSpace → AddressSpace) : Loader Unit := fun m => .ok () (f m)

/-- Makes an exported name global if it is a label. -/
def publish (labels : SymbolTable) (m : AddressSpace) (name : String) : AddressSpace :=
  match labels[name]? with
  | some addr => { m with globals := m.globals.insert name addr }
  | none => m

/-- What is checked of a placed program: each section, then each exported name. -/
def checks (q : Program) : Loader Unit := do
  forM q.sections fun s => check fun m => s.conflict? m.sections
  forM q.exported.toList fun name =>
    check fun m => if m.globals.contains name then some (.duplicateGlobal name) else none

/-- What a placed program changes: one global symbol after the other, one section after the other,
and last the list of the programs. -/
def changes (q : Program) (base : Word) : Loader Unit := do
  forM q.exported.toList fun name => change (publish q.labels · name)
  forM q.sections fun s => change (·.insertSection s)
  change fun m => { m with programs := m.programs ++ [⟨q.name, base, q.labels⟩] }

/-- A load, step after step. -/
def load (p : Program) (requested : Option Word) : Loader Word := do
  let base ← attempt fun m => m.chooseBase p requested
  let placed ← attempt fun _ => p.placeAt base
  checks placed
  changes placed base
  return base

theorem attempt_of_ok {α : Type} {r : AddressSpace → Except PlacementError α} {a : α}
    (h : r m = .ok a) : attempt r m = .ok a m := by
  rw [attempt, h]

theorem attempt_of_error {α : Type} {r : AddressSpace → Except PlacementError α}
    {e : PlacementError} (h : r m = .error e) : attempt r m = .error e m := by
  rw [attempt, h]

theorem check_of_none {wrong? : AddressSpace → Option PlacementError} (h : wrong? m = none) :
    check wrong? m = .ok () m := by
  rw [check, h]

theorem check_of_some {wrong? : AddressSpace → Option PlacementError} {e : PlacementError}
    (h : wrong? m = some e) : check wrong? m = .error e m := by
  rw [check, h]

/-- Checks one after the other fail with the first thing that is wrong. -/
theorem forM_check {α : Type} (wrong? : α → AddressSpace → Option PlacementError) (l : List α)
    (m : AddressSpace) : (forM l fun x => check (wrong? x)) m =
      check (fun m => l.findSome? (wrong? · m)) m := by
  induction l with
  | nil => rfl
  | cons x rest ih =>
    rw [List.forM_cons]
    cases hx : wrong? x m with
    | some e =>
      rw [bind_of_error (check_of_some hx), check_of_some]
      rw [List.findSome?_cons, hx]
    | none =>
      rw [bind_of_ok (check_of_none hx), ih, check, check, List.findSome?_cons, hx]

/-- Changes one after the other add up. -/
theorem forM_change {α : Type} (f : AddressSpace → α → AddressSpace) (l : List α)
    (m : AddressSpace) : (forM l fun x => change (f · x)) m = .ok () (l.foldl f m) := by
  induction l generalizing m with
  | nil => rfl
  | cons x rest ih =>
    have hgo : change (f · x) m = .ok () (f m x) := rfl
    rw [List.forM_cons, bind_of_ok hgo, ih, List.foldl_cons]

private theorem findSome?_ite {α β : Type} (f : α → β) (c : α → Bool) (l : List α) :
    (l.findSome? fun x => if c x then some (f x) else none) = (l.find? c).map f := by
  induction l with
  | nil => rfl
  | cons x rest ih => cases hx : c x <;> simp [hx, ih]

/-- The checks of a placed program find what it is refused for, and leave the space alone. -/
theorem checks_eq (q : Program) (m : AddressSpace) :
    checks q m = check (fun m => m.refusal? q) m := by
  have hsections := forM_check (fun s m => Section.conflict? s m.sections) q.sections m
  have hglobals := forM_check (fun name m => if m.globals.contains name then
    some (PlacementError.duplicateGlobal name) else none) q.exported.toList m
  rw [checks]
  cases hfirst : q.sections.findSome? (·.conflict? m.sections) with
  | some e =>
    rw [check_of_some hfirst] at hsections
    rw [bind_of_error hsections, check_of_some]
    rw [refusal?, hfirst, Option.some_or]
  | none =>
    rw [check_of_none hfirst] at hsections
    rw [bind_of_ok hsections, hglobals, check, check, refusal?, hfirst, Option.none_or,
      findSome?_ite PlacementError.duplicateGlobal]

theorem foldl_publish (labels : SymbolTable) (names : List String) (m : AddressSpace) :
    names.foldl (publish labels) m =
      { m with
        globals := names.foldl (fun globals name =>
          match labels[name]? with
          | some addr => globals.insert name addr
          | none => globals) m.globals } := by
  induction names generalizing m with
  | nil => rfl
  | cons first rest ih =>
    rw [List.foldl_cons, List.foldl_cons, ih, publish]
    cases labels[first]? with
    | none => rfl
    | some addr => rfl

theorem foldl_insertSection (new : List Section) (m : AddressSpace) :
    new.foldl insertSection m = m.insertAll new := by
  induction new generalizing m with
  | nil => rfl
  | cons s rest ih =>
    rw [List.foldl_cons, ih]
    rfl

/-- The changes of a placed program take it in. -/
theorem changes_eq (q : Program) (base : Word) (m : AddressSpace) :
    changes q base m = .ok () (m.withProgram q base) := by
  rw [changes, bind_of_ok (forM_change (publish q.labels) q.exported.toList m), foldl_publish,
    bind_of_ok (forM_change insertSection q.sections _), foldl_insertSection]
  rfl

/-- A load in steps gives what a load gives, and if it fails then before the first change. -/
theorem load_cases (m : AddressSpace) (p : Program) (requested : Option Word) :
    (∃ e, m.load p requested = .error e ∧ Loader.load p requested m = .error e m) ∨
      ∃ base m', m.load p requested = .ok (base, m') ∧
        Loader.load p requested m = .ok base m' := by
  rw [Loader.load]
  cases hbase : m.chooseBase p requested with
  | error e =>
    exact .inl ⟨e, load_of_chooseBase_error hbase, bind_of_error (attempt_of_error hbase)⟩
  | ok base =>
    rw [bind_of_ok (attempt_of_ok hbase)]
    cases hplace : p.placeAt base with
    | error e =>
      refine .inl ⟨e, load_of_placeAt_error hbase hplace, ?_⟩
      exact bind_of_error (attempt_of_error (r := fun _ => .error e) rfl)
    | ok q =>
      rw [bind_of_ok (attempt_of_ok (r := fun _ => .ok q) rfl)]
      have hchecks := checks_eq q m
      cases hrefuse : m.refusal? q with
      | some e =>
        rw [check_of_some hrefuse] at hchecks
        exact .inl ⟨e, load_of_refusal hbase hplace hrefuse, bind_of_error hchecks⟩
      | none =>
        rw [check_of_none hrefuse] at hchecks
        refine .inr ⟨base, _, load_of_placed hbase hplace hrefuse, ?_⟩
        rw [bind_of_ok hchecks, bind_of_ok (changes_eq q base m)]
        rfl

theorem load_of_error {e : PlacementError} (h : m.load p requested = .error e) :
    Loader.load p requested m = .error e m := by
  rcases load_cases m p requested with ⟨e', hload, hsteps⟩ | ⟨base, m', hload, -⟩
  · rw [h] at hload
    cases hload
    exact hsteps
  · rw [h] at hload
    cases hload

theorem load_of_ok (h : m.load p requested = .ok (base, m')) :
    Loader.load p requested m = .ok base m' := by
  rcases load_cases m p requested with ⟨e, hload, -⟩ | ⟨base', m'', hload, hsteps⟩
  · rw [h] at hload
    cases hload
  · rw [h] at hload
    cases hload
    exact hsteps

end Loader

/-! ## All or nothing -/

/-- **Loading is all or nothing.** A load that fails leaves a reachable space as it was, although
it is made in steps, and one that succeeds takes in the whole of the program at the base that it
gives, which is the requested one if there is one. -/
theorem load_all_or_nothing (h : Reachable 0 m) (p : Program) (requested : Option Word) :
    (∀ e, m.load p requested = .error e → Loader.load p requested m = .error e m) ∧
      ∀ base m', m.load p requested = .ok (base, m') →
        Loader.load p requested m = .ok base m' ∧ TakesIn m p base m' ∧
          ∀ r, requested = some r → base = r := by
  refine ⟨fun e => Loader.load_of_error, ?_⟩
  intro base m' hok
  obtain ⟨hbase, q, hplace, hrefuse, rfl⟩ := load_eq_ok_iff.1 hok
  refine ⟨Loader.load_of_ok hok, .of_placedAt h.sorted (Program.placeAt_spec hplace) hrefuse, ?_⟩
  rintro r rfl
  simp only [chooseBase, Option.some_or, Except.ok.injEq] at hbase
  exact hbase.symm

/-- A space of its default settings is an empty one with an alignment of pages. -/
theorem empty_default : empty false 0x1000 = {} := by cbv

theorem reachable_default : Reachable 0 {} := empty_default ▸ .empty false 0x1000

/-- A movable program with a section of code, and a label in it that it exports. -/
def exporting (name label : String) (offset : Word) : Program :=
  let text : Section := { Section.zeroed ".text" 0 16 .code with owner := name }
  (Program.addLabel { name, sections := [text] } label offset).exportLabel label

theorem built_exporting (name label : String) (offset : Word) :
    (exporting name label offset).Built := by
  have hadd : Program.addSection { name } (.zeroed ".text" 0 16 .code) =
      .ok { name, sections := [{ Section.zeroed ".text" 0 16 .code with owner := name }] } := rfl
  exact .exportLabel _ (.addLabel _ _ (.addSection (.movable name) hadd))

/-- A space with a library. -/
def withLibrary : AddressSpace :=
  ({} : AddressSpace).after (.load (exporting "lib" "helper" 8) none)

theorem reachable_withLibrary : Reachable 0 withLibrary :=
  .call reachable_default ⟨built_exporting .., fun _ _ => Nat.zero_le _⟩

/-- A program that exports what the library does is refused, and another one goes behind it. -/
theorem load_behind_library :
    Reachable 0 withLibrary ∧
      withLibrary.load (exporting "app" "helper" 4) none = .error (.duplicateGlobal "helper") ∧
      Loader.load (exporting "app" "helper" 4) none withLibrary =
        .error (.duplicateGlobal "helper") withLibrary ∧
      ∃ m', withLibrary.load (exporting "app" "main" 4) none = .ok (0x2000, m') ∧
        TakesIn withLibrary (exporting "app" "main" 4) 0x2000 m' ∧
        m'.sections.map (fun s => (s.owner, s.base)) = [("lib", 0x1000), ("app", 0x2000)] ∧
        m'.globals["main"]? = some 0x2004 ∧ m'.globals["helper"]? = some 0x1008 := by
  have hrefused : withLibrary.load (exporting "app" "helper" 4) none =
      .error (.duplicateGlobal "helper") := rfl
  obtain ⟨m', hload, hsections⟩ : ∃ m',
      withLibrary.load (exporting "app" "main" 4) none = .ok (0x2000, m') ∧
        m'.sections.map (fun s => (s.owner, s.base)) = [("lib", 0x1000), ("app", 0x2000)] := by
    refine ⟨_, rfl, ?_⟩
    rfl
  obtain ⟨-, htakes, -⟩ :=
    (load_all_or_nothing reachable_withLibrary (exporting "app" "main" 4) none).2 0x2000 m' hload
  refine ⟨reachable_withLibrary, hrefused, ?_, m', hload, htakes, hsections, ?_, ?_⟩
  · exact (load_all_or_nothing reachable_withLibrary (exporting "app" "helper" 4) none).1 _ hrefused
  · rw [htakes.globals]
    rfl
  · rw [htakes.globals]
    rfl

/-! ## The end of the address space -/

/-- A load keeps a program inside of the address space: whatever it puts in ends there, and a
program of which something would end behind it is refused for that, unless it was to leave the
place that it has. -/
structure LoadsInside (m : AddressSpace) (p : Program) (requested : Option Word) : Prop where
  inside : ∀ base m', m.load p requested = .ok (base, m') →
    ∃ new, m'.sections.Perm (m.sections ++ new) ∧ ∀ s ∈ new, s.endAddress ≤ addressCount
  rejects : ∀ base, m.chooseBase p requested = .ok base →
    (∀ fixed, p.base = some fixed → fixed = base) →
    (∃ s ∈ p.sections, addressCount < p.endAt base s) →
      ∃ s ∈ p.sections, m.load p requested = .error (.addressOverflow s.name)

/-- The base that is chosen for a program which has one is the one that is asked for, or its own. -/
theorem chooseBase_of_placed {fixed : Word} (m : AddressSpace) (requested : Option Word)
    (h : p.base = some fixed) : m.chooseBase p requested = .ok (requested.getD fixed) := by
  rw [chooseBase, h]
  cases requested <;> rfl

/-- A program that is taken in where it is never overflows. -/
theorem load_ne_addressOverflow {fixed : Word} (h : p.base = some fixed)
    (hstays : requested.getD fixed = fixed) (name : String) :
    m.load p requested ≠ .error (.addressOverflow name) := by
  have hbase := chooseBase_of_placed m requested h
  rw [hstays] at hbase
  have hplace : p.placeAt fixed = .ok p := by rw [Program.placeAt_of_placed h, if_pos rfl]
  cases hrefuse : m.refusal? p with
  | none =>
    rw [load_of_placed hbase hplace hrefuse]
    intro hload
    cases hload
  | some e =>
    rw [load_of_refusal hbase hplace hrefuse]
    intro hload
    cases hload
    rcases refusal?_cases hrefuse with ⟨s, -, t, -, -, he⟩ | ⟨-, name', -, -, he⟩
    · cases he
    · cases he

/-- What a movable program brings along ends inside of the address space. -/
theorem endAddress_le_of_fits (hfits : ∀ s ∈ p.sections, Program.fitsAt base s = true) :
    ∀ t ∈ p.sections.map (Section.moved base), t.endAddress ≤ addressCount := by
  intro t ht
  obtain ⟨s, hs, rfl⟩ := List.mem_map.1 ht
  have hfit := hfits s hs
  rw [Section.endAddress_moved hfit]
  rw [Program.fitsAt, Bool.and_eq_true, decide_eq_true_eq, decide_eq_true_eq] at hfit
  exact hfit.2

/-- A movable program is refused if one of its sections does not fit. -/
theorem load_of_not_fits (hnone : p.base = none) (hbase : m.chooseBase p requested = .ok base)
    (h : ∃ s ∈ p.sections, Program.fitsAt base s = false) :
    ∃ s ∈ p.sections, m.load p requested = .error (.addressOverflow s.name) := by
  obtain ⟨s, hs, hfit⟩ := h
  cases hplace : p.placeAt base with
  | ok q =>
    rw [(Program.placeAt_spec hplace).fits hnone s hs] at hfit
    cases hfit
  | error e =>
    obtain ⟨t, ht, -, rfl⟩ := Program.addressOverflow_of_placeAt hnone hplace
    exact ⟨t, ht, load_of_placeAt_error hbase hplace⟩

/-- **Loading inside of the address space.** A load keeps a program inside of the address space
exactly if it moves the program, if it fails to, or if the program was built inside. -/
theorem loads_inside_iff (m : AddressSpace) (p : Program) (requested : Option Word) :
    LoadsInside m p requested ↔
      ∀ fixed, p.base = some fixed → requested.getD fixed = fixed →
        ∀ s ∈ p.sections, s.endAddress ≤ addressCount := by
  constructor
  · intro h fixed hfixed hstays s hs
    by_contra hover
    have hbase := chooseBase_of_placed m requested hfixed
    rw [hstays] at hbase
    have hbehind : ∃ s ∈ p.sections, addressCount < p.endAt fixed s := by
      refine ⟨s, hs, ?_⟩
      rw [Program.endAt_of_placed hfixed]
      exact Nat.not_le.1 hover
    have hsame : ∀ fixed', p.base = some fixed' → fixed' = fixed := by
      intro fixed' hfixed'
      rw [hfixed, Option.some.injEq] at hfixed'
      exact hfixed'.symm
    obtain ⟨t, -, hload⟩ := h.rejects fixed hbase hsame hbehind
    exact load_ne_addressOverflow hfixed hstays t.name hload
  · intro h
    constructor
    · intro base m' hload
      obtain ⟨hbase, q, hplace, -, rfl⟩ := load_eq_ok_iff.1 hload
      have hspec := Program.placeAt_spec hplace
      refine ⟨q.sections, perm_insertAll m q.sections, ?_⟩
      rw [hspec.sections]
      cases hfixed : p.base with
      | some fixed =>
        rw [chooseBase_of_placed m requested hfixed, Except.ok.injEq] at hbase
        rw [Program.sectionsAt_of_placed hfixed]
        exact h fixed hfixed (hbase.trans (hspec.stays fixed hfixed))
      | none =>
        rw [Program.sectionsAt_of_unplaced hfixed]
        exact endAddress_le_of_fits (hspec.fits hfixed)
    · rintro base hbase hsame ⟨s, hs, hend⟩
      cases hfixed : p.base with
      | some fixed =>
        rw [chooseBase_of_placed m requested hfixed, Except.ok.injEq] at hbase
        rw [Program.endAt_of_placed hfixed] at hend
        have hle := h fixed hfixed (hbase.trans (hsame fixed hfixed).symm) s hs
        omega
      | none =>
        rw [Program.endAt_of_unplaced hfixed] at hend
        refine load_of_not_fits hfixed hbase ⟨s, hs, ?_⟩
        rw [Program.fitsAt, Bool.and_eq_false_iff]
        exact .inr (decide_eq_false (Nat.not_le.2 hend))

/-- A program built sixteen bytes below the end of the address space, with a section of twice as
many. -/
def overhanging : Program :=
  { name := "p", base := some 0xFFFFFFF0,
    sections := [{ Section.zeroed ".data" 0xFFFFFFF0 32 .data with owner := "p" }] }

theorem built_overhanging : overhanging.Built := by
  have hadd : Program.addSection { name := "p", base := some 0xFFFFFFF0 }
      (.zeroed ".data" 0xFFFFFFF0 32 .data) = .ok overhanging := rfl
  exact .addSection (.fixed "p" 0xFFFFFFF0) hadd

/-- A load takes in a section that ends behind the address space. -/
theorem not_loads_inside :
    ¬ ∀ (m : AddressSpace) (p : Program) (requested : Option Word), Reachable 0 m → p.Built →
      LoadsInside m p requested := by
  intro hall
  have hinside := (hall {} overhanging none reachable_default built_overhanging).inside
  obtain ⟨new, hperm, hend⟩ := hinside 0xFFFFFFF0 _ rfl
  have hmem : { Section.zeroed ".data" 0xFFFFFFF0 32 .data with owner := "p" } ∈ new :=
    hperm.subset (List.mem_singleton.2 rfl)
  exact absurd (hend _ hmem) (by decide)

end AddressSpace
end Riscv32
