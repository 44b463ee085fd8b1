import Mathlib.Data.List.Forall2
import Riscv32.Proofs.Memory.Loading

/-!
# Whose label a name means

A name is looked up in the labels of one loaded program after the other, in the order in which they
were loaded, and whoever asks is not asked for the program that it belongs to. So a label means the
address in the first program that has it, whether any program exports it or not. The global symbols
never decide: each of them is a label of a loaded program.

## Main definitions

* `AddressSpace.Hosts ps m` — the loads that succeeded on the way to `m` put the programs `ps` at
  their bases, in this order.
* `AddressSpace.Means m name addr` — what a name in an instruction stands for.

## Main statements

* `AddressSpace.Hosts.symbol?_eq`, the address of a name.
* `AddressSpace.label_means_first`, what the label of a program means.
-/
namespace Riscv32

/-- A program has a label at its base exactly if it has one. -/
theorem Program.labelAt?_eq_none_iff {p : Program} {base : Word} {name : String} :
    p.labelAt? base name = none ↔ p.labels[name]? = none := by
  rw [labelAt?, Option.map_eq_none_iff]

namespace AddressSpace

variable {m m' : AddressSpace} {ps front back : List (Program × Word)} {p : Program}
  {base addr : Word} {name : String}

/-! ## The programs of a space -/

/-- The program that a call loads, with the base that it is given. -/
def hosted? (m : AddressSpace) : Call → Option (Program × Word)
  | .load p requested => (m.load p requested).toOption.map fun r => (p, r.1)
  | .addSection _ | .allocate _ _ _ | .read _ _ | .write _ _ | .fetch _ => none

/-- Calls lead from an empty space to `m`, and those of them that loaded a program put `ps` at their
bases, one after the other. -/
inductive Hosts : List (Program × Word) → AddressSpace → Prop
  | empty (lazyMapping : Bool) (loadAlignment : Nat) :
    Hosts [] (.empty lazyMapping loadAlignment)
  | call {ps : List (Program × Word)} {m : AddressSpace} (c : Call) :
    Hosts ps m → Hosts (ps ++ (m.hosted? c).toList) (m.after c)

/-- What a space remembers of a program that was loaded. -/
structure Remembers (q : Program × Word) (l : LoadedProgram) : Prop where
  name : l.name = q.1.name
  base : l.base = q.2
  labels : ∀ name : String, l.labels[name]? = q.1.labelAt? q.2 name

/-- A space remembers its programs in their order, and its global symbols are labels of them. -/
structure Remembered (ps : List (Program × Word)) (m : AddressSpace) : Prop where
  programs : List.Forall₂ Remembers ps m.programs
  globals : ∀ (name : String) (addr : Word), m.globals[name]? = some addr →
    ∃ q ∈ ps, q.1.labelAt? q.2 name = some addr

/-- A load remembers its program behind the others. -/
theorem Remembered.withProgram {q : Program} (h : Remembered ps m)
    (hplace : p.placeAt base = .ok q) :
    Remembered (ps ++ [(p, base)]) (m.withProgram q base) := by
  have hspec := Program.placeAt_spec hplace
  constructor
  · have hlast : Remembers (p, base) ⟨q.name, base, q.labels⟩ := ⟨hspec.name, rfl, hspec.labels⟩
    exact List.rel_append h.programs (.cons hlast .nil)
  · intro name addr hglobal
    change (m.globalsWith q)[name]? = some addr at hglobal
    rw [getElem?_globalsWith, Option.or_eq_some_iff] at hglobal
    rcases hglobal with hexported | ⟨-, hold⟩
    · refine ⟨(p, base), by simp, ?_⟩
      rw [← hspec.labels]
      exact (Option.ite_none_right_eq_some.1 hexported).2
    · obtain ⟨r, hr, hlabel⟩ := h.globals name addr hold
      exact ⟨r, List.mem_append_left _ hr, hlabel⟩

theorem Hosts.remembered (h : Hosts ps m) : Remembered ps m := by
  induction h with
  | empty lazyMapping loadAlignment =>
    refine ⟨.nil, fun name addr hglobal => ?_⟩
    simp [AddressSpace.empty] at hglobal
  | @call ps m c _ ih =>
    rcases m.after_cases c with ⟨p, requested, base, q, rfl, hplace, hload⟩ |
      ⟨hfails, sections, hafter⟩
    · simp only [hosted?, after, hload, Except.toOption, Option.map_some, Option.toList_some,
        Option.getD_some]
      exact ih.withProgram hplace
    · have hnone : m.hosted? c = none := by
        cases c with
        | load p requested =>
          obtain ⟨e, hload⟩ := hfails p requested rfl
          simp [hosted?, hload, Except.toOption]
        | _ => rfl
      rw [hafter, hnone, Option.toList_none, List.append_nil]
      exact ⟨ih.programs, ih.globals⟩

/-! ## The address of a name -/

/-- Two lists that correspond have the same first answer if corresponding elements do. -/
private theorem findSome?_eq_of_forall₂ {α β γ : Type} {R : α → β → Prop} {f : α → Option γ}
    {g : β → Option γ} (hfg : ∀ a b, R a b → g b = f a) {l : List α} {l' : List β}
    (h : List.Forall₂ R l l') : l'.findSome? g = l.findSome? f := by
  induction h with
  | nil => rfl
  | cons hab _ ih => rw [List.findSome?_cons, List.findSome?_cons, hfg _ _ hab, ih]

/-- A name has the address that it has in the first program with such a label. -/
theorem Hosts.symbol?_eq (h : Hosts ps m) (name : String) :
    m.symbol? name = ps.findSome? fun q => q.1.labelAt? q.2 name := by
  obtain ⟨hprograms, hglobals⟩ := h.remembered
  have hlabels : m.programs.findSome? (fun l => l.labels[name]?) =
      ps.findSome? fun q => q.1.labelAt? q.2 name :=
    findSome?_eq_of_forall₂ (fun _ _ hq => hq.labels name) hprograms
  rw [symbol?, hlabels]
  cases hfirst : ps.findSome? fun q => q.1.labelAt? q.2 name with
  | some addr => rfl
  | none =>
    -- a global symbol would be a label of a program
    cases hglobal : m.globals[name]? with
    | none => rfl
    | some addr =>
      obtain ⟨q, hq, hlabel⟩ := hglobals name addr hglobal
      rw [List.findSome?_eq_none_iff.1 hfirst q hq] at hlabel
      cases hlabel

/-- A name in an instruction stands for an address, as a destination and as a number. -/
structure Means (m : AddressSpace) (name : String) (addr : Word) : Prop where
  symbol : m.symbol? name = some addr
  target : ∀ (mnemonic : String) (ops : List String) (index : Nat) (pc : Word),
    ops[index]? = some name →
      (Instruction.structured mnemonic ops).target index pc m.symbol? = .ok addr
  immediate : ∀ (mnemonic : String) (ops : List String) (index : Nat), ops[index]? = some name →
    (Instruction.structured mnemonic ops).immediate index m.symbol? = .ok addr

theorem means_of_symbol? (h : m.symbol? name = some addr) : m.Means name addr := by
  refine ⟨h, fun mnemonic ops index pc hop => ?_, fun mnemonic ops index hop => ?_⟩
  · simp [Instruction.target, Instruction.operandAt, Instruction.require, hop, h, bind,
      Except.bind]
  · simp [Instruction.immediate, Instruction.operandAt, Instruction.require, hop, h, bind,
      Except.bind]

/-- Programs of which one has a label can be cut before the first that does. -/
private theorem exists_first (h : ∃ q ∈ front, q.1.labels[name]? ≠ none) :
    ∃ before q between addr, front = before ++ q :: between ∧
      (∀ r ∈ before, r.1.labels[name]? = none) ∧ q.1.labelAt? q.2 name = some addr := by
  induction front with
  | nil => simp at h
  | cons r rest ih =>
    cases hr : r.1.labelAt? r.2 name with
    | some addr => exact ⟨[], r, rest, addr, rfl, by simp, hr⟩
    | none =>
      rw [Program.labelAt?_eq_none_iff] at hr
      obtain ⟨q, hq, hlabel⟩ := h
      rcases List.mem_cons.1 hq with rfl | hq
      · exact absurd hr hlabel
      · obtain ⟨before, q, between, addr, rfl, hbefore, hq⟩ := ih ⟨q, hq, hlabel⟩
        refine ⟨r :: before, q, between, addr, rfl, ?_, hq⟩
        intro r' hr'
        rcases List.mem_cons.1 hr' with rfl | hr'
        · exact hr
        · exact hbefore r' hr'

/-- The first program with a label decides what the label means. -/
theorem Hosts.means_of_first {q : Program × Word} (h : Hosts (front ++ q :: back) m)
    (hfront : ∀ r ∈ front, r.1.labels[name]? = none) (hq : q.1.labelAt? q.2 name = some addr) :
    m.Means name addr := by
  have hnone : (front.findSome? fun r => r.1.labelAt? r.2 name) = none := by
    rw [List.findSome?_eq_none_iff]
    exact fun r hr => Program.labelAt?_eq_none_iff.2 (hfront r hr)
  refine means_of_symbol? ?_
  rw [h.symbol?_eq, List.findSome?_append, hnone, Option.none_or, List.findSome?_cons, hq]

/-- **What the label of a program means.** A label of a loaded program stands for its own placed
address, unless a program that was loaded before has a label of this name as well, exported or not.
Then it stands for the placed address in the first such program, also in the branches of those that
were loaded later. A name that is no label of a loaded program has no address. -/
theorem label_means_first (h : Hosts (front ++ (p, base) :: back) m)
    (hlabel : p.labelAt? base name = some addr) :
    ((∀ q ∈ front, q.1.labels[name]? = none) → m.Means name addr) ∧
      ((∃ q ∈ front, q.1.labels[name]? ≠ none) →
        ∃ before q between addr', front = before ++ q :: between ∧
          (∀ r ∈ before, r.1.labels[name]? = none) ∧ q.1.labelAt? q.2 name = some addr' ∧
          m.Means name addr') ∧
      ∀ other, m.symbol? other = none ↔
        ∀ q ∈ front ++ (p, base) :: back, q.1.labels[other]? = none := by
  refine ⟨fun hfront => h.means_of_first hfront hlabel, fun hsome => ?_, fun other => ?_⟩
  · obtain ⟨before, q, between, addr', rfl, hbefore, hq⟩ := exists_first hsome
    rw [List.append_assoc, List.cons_append] at h
    exact ⟨before, q, between, addr', rfl, hbefore, hq, h.means_of_first hbefore hq⟩
  · rw [h.symbol?_eq, List.findSome?_eq_none_iff]
    exact forall₂_congr fun q _ => Program.labelAt?_eq_none_iff

/-! ## Two programs with a loop -/

/-- A program that branches to its first instruction by a label that it does not export. -/
def looping (name : String) (base : Word) : Program :=
  let text : Section := .ofInstructions ".text" base .code
    [.structured "nop" [], .structured "j" ["loop"]]
  Program.addLabel
    { name, base := some base, sections := [{ text with owner := name }] } "loop" base

/-- A space with two such programs. -/
def twoLoops : AddressSpace :=
  (({} : AddressSpace).after (.load (looping "a" 0x1000) none)).after
    (.load (looping "b" 0x2000) none)

theorem hosts_twoLoops :
    Hosts [(looping "a" 0x1000, 0x1000), (looping "b" 0x2000, 0x2000)] twoLoops := by
  have hempty : empty false 0x1000 = {} := by cbv
  have hhosts : Hosts [] {} := by
    rw [← hempty]
    exact .empty false 0x1000
  exact (hhosts.call (.load (looping "a" 0x1000) none)).call (.load (looping "b" 0x2000) none)

/-- The branch of the second program goes into the first one. -/
theorem label_means_first_of_twoLoops :
    (looping "b" 0x2000).labelAt? 0x2000 "loop" = some 0x2000 ∧ twoLoops.Means "loop" 0x1000 ∧
      twoLoops.ownerOf? 0x2004 = some "b" ∧ twoLoops.ownerOf? 0x1000 = some "a" ∧
      twoLoops.symbol? "done" = none := by
  have hlabel : (looping "b" 0x2000).labelAt? 0x2000 "loop" = some 0x2000 := rfl
  have hhosts : Hosts ([(looping "a" 0x1000, 0x1000)] ++ (looping "b" 0x2000, 0x2000) :: [])
    twoLoops := hosts_twoLoops
  obtain ⟨-, hearlier, -⟩ := label_means_first hhosts hlabel
  obtain ⟨before, q, between, addr, hfront, -, hq, hmeans⟩ :=
    hearlier ⟨_, List.mem_singleton_self _, by decide⟩
  have hfirst : before = [] ∧ q = (looping "a" 0x1000, 0x1000) := by
    cases before with
    | nil => exact ⟨rfl, (List.cons.inj hfront).1.symm⟩
    | cons r rest => simp at hfront
  obtain ⟨-, rfl⟩ := hfirst
  obtain rfl : addr = 0x1000 := Option.some.inj (hq.symm.trans rfl)
  exact ⟨hlabel, hmeans, rfl, rfl, rfl⟩

/-- A label that no other program exports need not mean its own address: the branch of the second
program above goes to the section of the first one. -/
theorem not_own_label_means_itself :
    (¬ ∀ (front back : List (Program × Word)) (p : Program) (base : Word) (m : AddressSpace)
      (name : String) (addr : Word), Hosts (front ++ (p, base) :: back) m →
      p.labelAt? base name = some addr → (∀ q ∈ front ++ back, name ∉ q.1.exported) →
      m.symbol? name = some addr) ∧
    (Instruction.structured "j" ["loop"]).target 0 0x2004 twoLoops.symbol? = .ok 0x1000 ∧
      twoLoops.ownerOf? 0x2004 = some "b" ∧ twoLoops.ownerOf? 0x1000 = some "a" := by
  refine ⟨fun hall => ?_, rfl, rfl, rfl⟩
  have hown := hall [(looping "a" 0x1000, 0x1000)] [] (looping "b" 0x2000) 0x2000 twoLoops "loop"
    0x2000 hosts_twoLoops rfl (by
      intro q hq
      rw [List.append_nil, List.mem_singleton] at hq
      rw [hq]
      exact Std.TreeSet.not_mem_emptyc)
  have hfirst : twoLoops.symbol? "loop" = some 0x1000 := rfl
  rw [hfirst] at hown
  exact absurd hown (by decide)

end AddressSpace
end Riscv32
