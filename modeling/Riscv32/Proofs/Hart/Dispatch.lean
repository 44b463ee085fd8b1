import Mathlib.Data.List.Nodup
import Mathlib.Data.String.Basic
import Riscv32.Hart.Dispatch

/-!
# Merging instruction sets

A table is merged from the registrations of its sets, one after the other. As long as no mnemonic
occurs a second time the table is just the registrations that were made so far, so nothing is
overwritten and nothing is lost. The first mnemonic that occurs a second time ends the merge, within
one set as well as between two. What a finished table answers does not depend on the order of the
sets.

## Main definitions

* `DispatchTable.Merges` — what becomes of a row of registrations.
* `DispatchTable.Holds` — a table answers for its sets.
* `DispatchTable.Equivalent` — two tables answer alike.

## Main statements

* `DispatchTable.merges_build`, what a merge makes of its sets.
* `DispatchTable.find?_eq_some_iff`, what a table finds.
* `DispatchTable.build_exact`, when there is a table, what it answers, and why there is none.
-/
namespace Riscv32

/-- The registrations of sets are what the sets register, under the names of the sets. -/
theorem InstructionSet.mem_registrations {sets : List InstructionSet} {r : Registration} :
    r ∈ sets.flatMap registrations ↔
      ∃ s ∈ sets, r.owner = s.name ∧ (r.mnemonic, r.handler) ∈ s.handlers := by
  simp only [List.mem_flatMap, registrations, List.mem_map]
  constructor
  · rintro ⟨s, hs, q, hq, rfl⟩
    exact ⟨s, hs, rfl, hq⟩
  · rintro ⟨s, hs, howner, hmem⟩
    exact ⟨s, hs, _, hmem, by rw [← howner]⟩

theorem InstructionSet.map_mnemonic_registrations (sets : List InstructionSet) :
    (sets.flatMap registrations).map (·.mnemonic) = (sets.flatMap (·.handlers)).map Prod.fst := by
  simp [List.map_flatMap, registrations, Function.comp_def]

namespace DispatchTable

variable {sets sets' : List InstructionSet} {t t' : DispatchTable} {r first : Registration}
  {m : String} {handler : Handler}

/-! ## The merge -/

theorem add_of_find?_eq_none (h : t.find? r.mnemonic = none) :
    t.add r = .ok ⟨t.entries ++ [r]⟩ := by
  rw [add, h]

theorem add_of_find?_eq_some (h : t.find? r.mnemonic = some first) :
    t.add r = .error (.duplicateMnemonic r.mnemonic first.owner r.owner) := by
  rw [add, h]

/-- What becomes of a row of registrations: a table of all of them, or a failure at the first one
whose mnemonic stands before it already. -/
inductive Merges (rs : List Registration) : Except HartError DispatchTable → Prop
  | complete (hnew : (rs.map (·.mnemonic)).Nodup) : Merges rs (.ok ⟨rs⟩)
  | repeated (before after : List Registration) (first second : Registration)
    (hrs : rs = before ++ second :: after) (hnew : (before.map (·.mnemonic)).Nodup)
    (hfirst : first ∈ before) (hsame : first.mnemonic = second.mnemonic) :
    Merges rs (.error (.duplicateMnemonic second.mnemonic first.owner second.owner))

/-- The merge goes on from a table of all that was registered so far. -/
theorem merges_foldlM_add (before rest : List Registration)
    (hnew : (before.map (·.mnemonic)).Nodup) :
    Merges (before ++ rest) (rest.foldlM add ⟨before⟩) := by
  induction rest generalizing before with
  | nil =>
    rw [List.append_nil]
    exact .complete hnew
  | cons r rest ih =>
    rw [List.foldlM_cons]
    cases hfind : (⟨before⟩ : DispatchTable).find? r.mnemonic with
    | some first =>
      rw [add_of_find?_eq_some hfind]
      exact .repeated before rest first r rfl hnew (List.mem_of_find?_eq_some hfind)
        (by simpa using List.find?_some hfind)
    | none =>
      rw [add_of_find?_eq_none hfind]
      have hother : r.mnemonic ∉ before.map (·.mnemonic) := by
        intro hmem
        obtain ⟨q, hq, heq⟩ := List.mem_map.1 hmem
        exact List.find?_eq_none.1 hfind q hq (beq_iff_eq.2 heq)
      have hnext : ((before ++ [r]).map (·.mnemonic)).Nodup := by
        rw [List.map_append, List.map_singleton, ← List.concat_eq_append]
        exact hnew.concat hother
      have hrest := ih (before ++ [r]) hnext
      rw [List.append_assoc, List.singleton_append] at hrest
      exact hrest

theorem merges_build (sets : List InstructionSet) :
    Merges (sets.flatMap InstructionSet.registrations) (build sets) :=
  merges_foldlM_add [] _ List.nodup_nil

/-- A table holds the registrations of its sets. -/
theorem entries_of_build (h : build sets = .ok t) :
    t.entries = sets.flatMap InstructionSet.registrations := by
  have hmerges := merges_build sets
  rw [h] at hmerges
  cases hmerges
  rfl

/-- No mnemonic is registered twice in a table. -/
theorem nodup_of_build (h : build sets = .ok t) :
    ((sets.flatMap (·.handlers)).map Prod.fst).Nodup := by
  have hmerges := merges_build sets
  rw [h] at hmerges
  cases hmerges with
  | complete hnew => rwa [InstructionSet.map_mnemonic_registrations] at hnew

/-- Sets that do not register a mnemonic twice have a table. -/
theorem build_of_nodup (h : ((sets.flatMap (·.handlers)).map Prod.fst).Nodup) :
    build sets = .ok ⟨sets.flatMap InstructionSet.registrations⟩ := by
  have hmerges := merges_build sets
  rw [← InstructionSet.map_mnemonic_registrations] at h
  generalize build sets = result at hmerges
  cases hmerges with
  | complete => rfl
  | repeated before after first second hrs _ hfirst hsame =>
    rw [hrs, List.map_append, List.map_cons, List.nodup_append] at h
    exact absurd hsame (h.2.2 _ (List.mem_map_of_mem hfirst) _ List.mem_cons_self)

/-- The table of sets that have one. -/
theorem build_eq_ok (h : (build sets).toOption.isSome) :
    build sets = .ok ((build sets).toOption.getD {}) := by
  cases hbuild : build sets with
  | ok t => rfl
  | error e =>
    rw [hbuild] at h
    cases h

/-! ## What a table finds -/

/-- A table finds just the registrations of its sets, each under its mnemonic. -/
theorem find?_eq_some_iff (h : build sets = .ok t) :
    t.find? m = some r ↔ r ∈ sets.flatMap InstructionSet.registrations ∧ r.mnemonic = m := by
  have hnodup := nodup_of_build h
  rw [← InstructionSet.map_mnemonic_registrations] at hnodup
  rw [find?, entries_of_build h]
  constructor
  · intro hfind
    exact ⟨List.mem_of_find?_eq_some hfind, by simpa using List.find?_some hfind⟩
  · rintro ⟨hmem, rfl⟩
    cases hfind : (sets.flatMap InstructionSet.registrations).find?
        (·.mnemonic == r.mnemonic) with
    | none => exact absurd (beq_self_eq_true r.mnemonic) (List.find?_eq_none.1 hfind r hmem)
    | some q =>
      have hmnemonic : q.mnemonic = r.mnemonic := by simpa using List.find?_some hfind
      rw [List.inj_on_of_nodup_map hnodup (List.mem_of_find?_eq_some hfind) hmem hmnemonic]

/-- A table finds whatever one of its sets registers. -/
theorem find?_of_mem {s : InstructionSet} (h : build sets = .ok t) (hs : s ∈ sets)
    (hmem : (m, handler) ∈ s.handlers) : t.find? m = some ⟨m, s.name, handler⟩ :=
  (find?_eq_some_iff h).2 ⟨InstructionSet.mem_registrations.2 ⟨s, hs, rfl, hmem⟩, rfl⟩

theorem handler?_of_mem {s : InstructionSet} {r : String × Handler} (h : build sets = .ok t)
    (hs : s ∈ sets) (hr : r ∈ s.handlers) : t.handler? r.1 = some r.2 := by
  rw [handler?, find?_of_mem h hs hr, Option.map_some]

theorem owner?_of_mem {s : InstructionSet} (h : build sets = .ok t) (hs : s ∈ sets)
    (hmem : (m, handler) ∈ s.handlers) : t.owner? m = some s.name := by
  rw [owner?, find?_of_mem h hs hmem, Option.map_some]

/-- A table finds nothing under a mnemonic that none of its sets registers. -/
theorem find?_eq_none (h : build sets = .ok t)
    (hnone : ∀ s ∈ sets, ∀ handler, (m, handler) ∉ s.handlers) : t.find? m = none := by
  refine Option.eq_none_iff_forall_ne_some.2 fun r hr => ?_
  obtain ⟨hmem, rfl⟩ := (find?_eq_some_iff h).1 hr
  obtain ⟨s, hs, -, hregistered⟩ := InstructionSet.mem_registrations.1 hmem
  exact hnone s hs _ hregistered

/-- Whatever a table finds is an instruction of one of its sets. -/
theorem exists_set_of_handler? (ht : build sets = .ok t) (h : t.handler? m = some handler) :
    ∃ s ∈ sets, ∃ q ∈ s.handlers, q.1 = m ∧ q.2 = handler := by
  rw [handler?, Option.map_eq_some_iff] at h
  obtain ⟨r, hfind, rfl⟩ := h
  obtain ⟨hmem, rfl⟩ := (find?_eq_some_iff ht).1 hfind
  obtain ⟨s, hs, -, hregistered⟩ := InstructionSet.mem_registrations.1 hmem
  exact ⟨s, hs, _, hregistered, rfl, rfl⟩

/-! ## The order of the sets -/

/-- The mnemonics of a table are those that its sets register. -/
theorem perm_mnemonics (h : build sets = .ok t) :
    t.mnemonics.Perm ((sets.flatMap (·.handlers)).map Prod.fst) := by
  rw [mnemonics, entries_of_build h, InstructionSet.map_mnemonic_registrations]
  exact List.mergeSort_perm _ _

theorem sorted_mnemonics (t : DispatchTable) : t.mnemonics.Pairwise (· ≤ ·) := by
  refine (List.pairwise_mergeSort ?_ ?_ _).imp fun hle => of_decide_eq_true hle
  · intro x y z hxy hyz
    exact decide_eq_true (le_trans (of_decide_eq_true hxy) (of_decide_eq_true hyz))
  · intro x y
    simpa using le_total x y

/-- A table answers for its sets: for each mnemonic of one of them with the instruction and the name
of that set, and for no other text. -/
structure Holds (sets : List InstructionSet) (t : DispatchTable) : Prop where
  finds : ∀ s ∈ sets, ∀ m handler, (m, handler) ∈ s.handlers →
    t.handler? m = some handler ∧ t.owner? m = some s.name
  misses : ∀ m, (∀ s ∈ sets, ∀ handler, (m, handler) ∉ s.handlers) →
    t.handler? m = none ∧ t.owner? m = none
  size : t.size = (sets.flatMap (·.handlers)).length
  mnemonics : t.mnemonics.Perm ((sets.flatMap (·.handlers)).map Prod.fst)
  sorted : t.mnemonics.Pairwise (· ≤ ·)

theorem holds_of_build (h : build sets = .ok t) : Holds sets t where
  finds _ hs _ _ hmem := ⟨handler?_of_mem h hs hmem, owner?_of_mem h hs hmem⟩
  misses m hnone := by
    have hfind := find?_eq_none h hnone
    exact ⟨by rw [handler?, hfind, Option.map_none], by rw [owner?, hfind, Option.map_none]⟩
  size := by
    simp [size, entries_of_build h, List.length_flatMap, InstructionSet.registrations]
  mnemonics := perm_mnemonics h
  sorted := sorted_mnemonics t

/-- Two tables answer alike. -/
structure Equivalent (t t' : DispatchTable) : Prop where
  handler? : ∀ m, t.handler? m = t'.handler? m
  owner? : ∀ m, t.owner? m = t'.owner? m
  size : t.size = t'.size
  mnemonics : t.mnemonics = t'.mnemonics

/-- Tables of the same sets answer alike, whatever the order of the sets. -/
theorem equivalent_of_perm (hperm : sets.Perm sets') (h : build sets = .ok t)
    (h' : build sets' = .ok t') : Equivalent t t' := by
  have hregistrations := hperm.flatMap_right InstructionSet.registrations
  have hfind : ∀ m, t.find? m = t'.find? m := by
    intro m
    refine Option.ext fun r => ?_
    rw [find?_eq_some_iff h, find?_eq_some_iff h', hregistrations.mem_iff]
  have hmnemonics : t.mnemonics.Perm t'.mnemonics :=
    (perm_mnemonics h).trans (((hperm.flatMap_right _).map _).trans (perm_mnemonics h').symm)
  constructor
  · intro m
    rw [DispatchTable.handler?, DispatchTable.handler?, hfind]
  · intro m
    rw [DispatchTable.owner?, DispatchTable.owner?, hfind]
  · rw [DispatchTable.size, DispatchTable.size, entries_of_build h, entries_of_build h',
      hregistrations.length_eq]
  · exact hmnemonics.eq_of_pairwise (fun _ _ _ _ => le_antisymm) (sorted_mnemonics t)
      (sorted_mnemonics t')

/-- **Merging is exact.** There is a table exactly if no mnemonic is registered twice, by one set or
by two. A table answers for its sets, and one of the same sets in another order answers alike. If
there is no table, then the failure names the first mnemonic that had been registered before, the
set that did so and the one that did it again. -/
theorem build_exact (sets : List InstructionSet) :
    ((∃ t, build sets = .ok t) ↔ ((sets.flatMap (·.handlers)).map Prod.fst).Nodup) ∧
      (∀ t, build sets = .ok t → Holds sets t ∧
        ∀ sets' : List InstructionSet, sets'.Perm sets →
          ∃ t', build sets' = .ok t' ∧ Equivalent t t') ∧
      ∀ e, build sets = .error e → ∃ before second after first,
        sets.flatMap InstructionSet.registrations = before ++ second :: after ∧
          (before.map (·.mnemonic)).Nodup ∧ first ∈ before ∧ first.mnemonic = second.mnemonic ∧
          e = .duplicateMnemonic second.mnemonic first.owner second.owner := by
  refine ⟨⟨?_, ?_⟩, ?_, ?_⟩
  · rintro ⟨t, h⟩
    exact nodup_of_build h
  · exact fun hnodup => ⟨_, build_of_nodup hnodup⟩
  · intro t h
    refine ⟨holds_of_build h, fun sets' hperm => ?_⟩
    have hnames := (hperm.flatMap_right (·.handlers)).map Prod.fst
    have h' := build_of_nodup (hnames.nodup_iff.2 (nodup_of_build h))
    exact ⟨_, h', equivalent_of_perm hperm.symm h h'⟩
  · intro e h
    have hmerges := merges_build sets
    rw [h] at hmerges
    cases hmerges with
    | repeated before after first second hrs hnew hfirst hsame =>
      exact ⟨before, second, after, first, hrs, hnew, hfirst, hsame, rfl⟩

/-- A set with a mnemonic of its own and two that multiplication has as well. -/
def overriding : InstructionSet :=
  ⟨"custom", [("nand", fun _ => pure ()), ("rem", fun _ => pure ()), ("mul", fun _ => pure ())]⟩

/-- Multiplication with an empty set has a table in either order. With a set that registers `rem`
and then `mul` again there is none, and the failure names `rem`, although `mul` comes first in the
set that had both. -/
theorem build_exact_of_overriding :
    (∃ t t', build [⟨"none", []⟩, .multiplication] = .ok t ∧
      build [.multiplication, ⟨"none", []⟩] = .ok t' ∧ Equivalent t t' ∧ t.size = 8 ∧
      t.owner? "mulhu" = some "rv32m" ∧ t.owner? "nand" = none) ∧
    build [.multiplication, overriding] = .error (.duplicateMnemonic "rem" "rv32m" "custom") := by
  constructor
  · obtain ⟨hiff, hanswers, -⟩ := build_exact [⟨"none", []⟩, .multiplication]
    obtain ⟨t, ht⟩ := hiff.2 (by decide)
    obtain ⟨hholds, horder⟩ := hanswers t ht
    obtain ⟨t', ht', hequivalent⟩ := horder [.multiplication, ⟨"none", []⟩] (.swap _ _ _)
    refine ⟨t, t', ht, ht', hequivalent, hholds.size, ?_, ?_⟩
    · exact (hholds.finds .multiplication (by simp) "mulhu" _
        (List.mem_of_getElem? (i := 3) rfl)).2
    · refine (hholds.misses "nand" fun s hs handler hmem => ?_).2
      have hnames : ∀ s ∈ [⟨"none", []⟩, InstructionSet.multiplication],
          "nand" ∉ s.handlers.map Prod.fst := by decide
      exact hnames s hs (List.mem_map_of_mem hmem)
  · rfl

end DispatchTable
end Riscv32
