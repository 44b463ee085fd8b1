import Mathlib.Data.List.Pairwise
import Mathlib.Data.String.Basic
import Riscv32.Proofs.Memory.Empty
import Riscv32.Proofs.Memory.Loading
import Riscv32.Proofs.Text.Numeral

/-!
# Addresses as texts

An address is written as its distance from the nearest symbol at or below it, where only symbols of
the section that contains the address count. Among symbols of the same address the one with the
least name is taken, so the text depends on what symbols there are and not on the order in which
they are looked at.

The section is found by the search by base, which misses a section behind which an empty one was put
in. Then symbols below the section count as well, and the address is written as its distance from
one of them if the section has none of its own. As that depends on which section was put in first,
so does the text.

## Main definitions

* `AddressSpace.Translates m floor addr text` — what the text of an address should be, with the
  symbols from `floor` on.
* `AddressSpace.Exact` — the text of an address is what it should be.
* `AddressSpace.Misled` — a symbol below the section is taken.
* `AddressSpace.Loads m ps m'` — programs are loaded one after the other.

## Main statements

* `AddressSpace.foldl_closest_eq_some_iff`, the best symbol of a list.
* `AddressSpace.exact_iff`, when a text is what it should be, and `AddressSpace.exact_of_reachable`,
  where it always is.
* `AddressSpace.addressText_exact_iff`.
-/
namespace Riscv32.AddressSpace

variable {m m' : AddressSpace} {floor addr : Word} {x y z : String × Word} {text text' : String}

/-! ## The better of two symbols -/

/-- The first symbol has a greater address, or the same and no later name. -/
def Beats (x y : String × Word) : Prop := y.2 < x.2 ∨ x.2 = y.2 ∧ x.1 ≤ y.1

theorem Beats.refl (x : String × Word) : Beats x x := .inr ⟨rfl, le_rfl⟩

theorem Beats.trans (h : Beats x y) (h' : Beats y z) : Beats x z := by
  rcases h with hlt | ⟨heq, hle⟩
  · rcases h' with hlt' | ⟨heq', -⟩
    · exact .inl (BitVec.lt_trans hlt' hlt)
    · exact .inl (heq' ▸ hlt)
  · rcases h' with hlt' | ⟨heq', hle'⟩
    · exact .inl (heq ▸ hlt')
    · exact .inr ⟨heq.trans heq', hle.trans hle'⟩

theorem Beats.antisymm (h : Beats x y) (h' : Beats y x) : x = y := by
  rcases h with hlt | ⟨heq, hle⟩
  · rcases h' with hlt' | ⟨heq', -⟩
    · exact absurd hlt' (BitVec.lt_asymm hlt)
    · exact absurd (heq' ▸ hlt) (BitVec.lt_irrefl _)
  · rcases h' with hlt' | ⟨-, hle'⟩
    · exact absurd (heq ▸ hlt') (BitVec.lt_irrefl _)
    · exact Prod.ext (le_antisymm hle hle') heq

theorem beats_of_closer (h : closer x y = true) : Beats x y := by
  rw [closer, Bool.or_eq_true, Bool.and_eq_true, decide_eq_true_eq, decide_eq_true_eq,
    beq_iff_eq] at h
  exact h.imp id fun ⟨heq, hlt⟩ => ⟨heq, le_of_lt hlt⟩

theorem beats_of_not_closer (h : closer x y = false) : Beats y x := by
  rw [closer, Bool.or_eq_false_iff, decide_eq_false_iff_not, Bool.and_eq_false_iff,
    beq_eq_false_iff_ne, decide_eq_false_iff_not] at h
  obtain ⟨hnot, hname⟩ := h
  by_cases heq : x.2 = y.2
  · exact .inr ⟨heq.symm, not_lt.1 (hname.resolve_left (not_not_intro heq))⟩
  · exact .inl (BitVec.lt_of_le_ne (BitVec.not_lt.1 hnot) heq)

/-- Whichever symbol was best so far, the one that is left beats it and all others. -/
theorem exists_foldl_closest (l : List (String × Word)) (y : String × Word) :
    ∃ x, l.foldl closest (some y) = some x ∧ x ∈ y :: l ∧ ∀ z ∈ y :: l, Beats x z := by
  induction l generalizing y with
  | nil => exact ⟨y, rfl, List.mem_cons_self, by simpa using Beats.refl y⟩
  | cons z rest ih =>
    rw [List.foldl_cons, closest]
    cases hcloser : closer z y with
    | true =>
      obtain ⟨x, hfold, hmem, hbeats⟩ := ih z
      refine ⟨x, hfold, List.mem_cons_of_mem _ hmem, List.forall_mem_cons.2 ⟨?_, hbeats⟩⟩
      exact (hbeats z List.mem_cons_self).trans (beats_of_closer hcloser)
    | false =>
      obtain ⟨x, hfold, hmem, hbeats⟩ := ih y
      obtain ⟨hy, hrest⟩ := List.forall_mem_cons.1 hbeats
      refine ⟨x, hfold, ?_, ?_⟩
      · exact (List.mem_cons.1 hmem).elim (fun h => h ▸ List.mem_cons_self)
          fun h => List.mem_cons_of_mem _ (List.mem_cons_of_mem _ h)
      · refine List.forall_mem_cons.2 ⟨hy, List.forall_mem_cons.2 ⟨?_, hrest⟩⟩
        exact hy.trans (beats_of_not_closer hcloser)

/-- The symbol that is left of a list is the one that beats all of them. -/
theorem foldl_closest_eq_some_iff {l : List (String × Word)} :
    l.foldl closest none = some x ↔ x ∈ l ∧ ∀ z ∈ l, Beats x z := by
  cases l with
  | nil => simp
  | cons y rest =>
    obtain ⟨best, hfold, hmem, hbeats⟩ := exists_foldl_closest rest y
    change rest.foldl closest (some y) = some x ↔ _
    rw [hfold, Option.some.injEq]
    refine ⟨fun heq => heq ▸ ⟨hmem, hbeats⟩, fun ⟨hx, hxbeats⟩ => ?_⟩
    exact (hbeats x hx).antisymm (hxbeats best hmem)

theorem foldl_closest_eq_none_iff {l : List (String × Word)} :
    l.foldl closest none = none ↔ l = [] := by
  cases l with
  | nil => simp
  | cons y rest =>
    obtain ⟨best, hfold, -⟩ := exists_foldl_closest rest y
    change rest.foldl closest (some y) = none ↔ _
    simp [hfold]

/-! ## The nearest symbol -/

/-- A label of a program or a global symbol, with its address. -/
def HasSymbol (m : AddressSpace) (x : String × Word) : Prop :=
  (∃ p ∈ m.programs, p.labels[x.1]? = some x.2) ∨ m.globals[x.1]? = some x.2

theorem mem_symbols : x ∈ m.symbols ↔ m.HasSymbol x := by
  obtain ⟨name, a⟩ := x
  simp only [symbols, HasSymbol, List.mem_append, List.mem_flatMap,
    Std.TreeMap.mem_toList_iff_getElem?_eq_some]

/-- A symbol between the floor and the address. -/
structure Considers (m : AddressSpace) (floor addr : Word) (x : String × Word) : Prop where
  symbol : m.HasSymbol x
  floor_le : floor ≤ x.2
  le_addr : x.2 ≤ addr

/-- The symbol between the floor and the address that beats all others. -/
structure Nearest (m : AddressSpace) (floor addr : Word) (x : String × Word) : Prop where
  considers : m.Considers floor addr x
  beats : ∀ y, m.Considers floor addr y → Beats x y

theorem Nearest.unique (h : m.Nearest floor addr x) (h' : m.Nearest floor addr y) : x = y :=
  (h.beats y h'.considers).antisymm (h'.beats x h.considers)

/-- The nearest symbol stays so if the floor comes up to it. -/
theorem Nearest.raise {floor' : Word} (h : m.Nearest floor addr x) (hfloor : floor ≤ floor')
    (hle : floor' ≤ x.2) : m.Nearest floor' addr x :=
  ⟨⟨h.considers.symbol, hle, h.considers.le_addr⟩, fun y hy =>
    h.beats y ⟨hy.symbol, BitVec.le_trans hfloor hy.floor_le, hy.le_addr⟩⟩

/-- Where the section begins that is found for an address, zero if none is. -/
def searchFloor (m : AddressSpace) (addr : Word) : Word :=
  ((m.sectionFor? addr).map (·.base)).getD 0

/-- The best of the listed symbols that are between the floor of the search and the address. -/
def nearestAmong (m : AddressSpace) (l : List (String × Word)) (addr : Word) :
    Option (String × Word) :=
  (l.filter fun s => decide (s.2 ≤ addr) && decide (m.searchFloor addr ≤ s.2)).foldl closest none

theorem mem_filter_iff_considers {l : List (String × Word)} (hl : ∀ x, x ∈ l ↔ m.HasSymbol x) :
    x ∈ (l.filter fun s => decide (s.2 ≤ addr) && decide (floor ≤ s.2)) ↔
      m.Considers floor addr x := by
  rw [List.mem_filter, hl, Bool.and_eq_true, decide_eq_true_eq, decide_eq_true_eq]
  exact ⟨fun ⟨hx, hle, hfloor⟩ => ⟨hx, hfloor, hle⟩, fun ⟨hx, hfloor, hle⟩ => ⟨hx, hle, hfloor⟩⟩

/-- The symbol that is found does not depend on how the symbols of the space are listed. -/
theorem nearestAmong_eq_some_iff {l : List (String × Word)} (hl : ∀ x, x ∈ l ↔ m.HasSymbol x) :
    m.nearestAmong l addr = some x ↔ m.Nearest (m.searchFloor addr) addr x := by
  rw [nearestAmong, foldl_closest_eq_some_iff, mem_filter_iff_considers hl]
  simp only [mem_filter_iff_considers hl]
  exact ⟨fun ⟨hx, hbeats⟩ => ⟨hx, hbeats⟩, fun ⟨hx, hbeats⟩ => ⟨hx, hbeats⟩⟩

theorem nearestAmong_eq_none_iff {l : List (String × Word)} (hl : ∀ x, x ∈ l ↔ m.HasSymbol x) :
    m.nearestAmong l addr = none ↔ ∀ x, ¬ m.Considers (m.searchFloor addr) addr x := by
  rw [nearestAmong, foldl_closest_eq_none_iff, List.eq_nil_iff_forall_not_mem]
  simp only [mem_filter_iff_considers hl]

theorem nearestSymbol?_eq_some_iff :
    m.nearestSymbol? addr = some x ↔ m.Nearest (m.searchFloor addr) addr x :=
  nearestAmong_eq_some_iff fun _ => mem_symbols

theorem nearestSymbol?_eq_none_iff :
    m.nearestSymbol? addr = none ↔ ∀ x, ¬ m.Considers (m.searchFloor addr) addr x :=
  nearestAmong_eq_none_iff fun _ => mem_symbols

/-! ## The text of an address -/

/-- A symbol by its name, with the distance of the address from it if there is one. -/
def symbolText (addr : Word) (x : String × Word) : String :=
  if x.2 = addr then x.1 else x.1 ++ "+" ++ Numeral.hex (addr.toNat - x.2.toNat)

/-- The text of an address that is looked for from the floor on. -/
inductive Translates (m : AddressSpace) (floor addr : Word) : String → Prop
  | symbol {x : String × Word} :
    m.Nearest floor addr x → Translates m floor addr (symbolText addr x)
  | number : (∀ x, ¬ m.Considers floor addr x) → Translates m floor addr (Numeral.hexWord addr)

/-- There is one text for an address and a floor. -/
theorem Translates.unique (h : m.Translates floor addr text) (h' : m.Translates floor addr text') :
    text = text' := by
  cases h with
  | symbol hx =>
    cases h' with
    | symbol hy => rw [hx.unique hy]
    | number hnone => exact absurd hx.considers (hnone _)
  | number hnone =>
    cases h' with
    | symbol hy => exact absurd hy.considers (hnone _)
    | number => rfl

/-- The text depends on nothing but the symbols that there are. -/
theorem Translates.congr (hsame : ∀ x, m.HasSymbol x ↔ m'.HasSymbol x)
    (h : m.Translates floor addr text) : m'.Translates floor addr text := by
  have hconsiders : ∀ x, m.Considers floor addr x ↔ m'.Considers floor addr x := fun x =>
    ⟨fun h => ⟨(hsame x).1 h.symbol, h.floor_le, h.le_addr⟩,
      fun h => ⟨(hsame x).2 h.symbol, h.floor_le, h.le_addr⟩⟩
  cases h with
  | symbol hx =>
    exact .symbol ⟨(hconsiders _).1 hx.considers, fun y hy => hx.beats y ((hconsiders y).2 hy)⟩
  | number hnone => exact .number fun x hx => hnone x ((hconsiders x).2 hx)

/-- The text of an address is what it should be above the section that is found. -/
theorem translates_addressText (m : AddressSpace) (addr : Word) :
    m.Translates (m.searchFloor addr) addr (m.addressText addr) := by
  rw [addressText]
  cases hnearest : m.nearestSymbol? addr with
  | none => exact .number (nearestSymbol?_eq_none_iff.1 hnearest)
  | some x =>
    have hx := nearestSymbol?_eq_some_iff.1 hnearest
    have hdistance := BitVec.toNat_sub_of_le hx.considers.le_addr
    change m.Translates _ addr
      (if x.2 = addr then x.1 else x.1 ++ "+" ++ Numeral.hex (addr - x.2).toNat)
    rw [hdistance]
    exact .symbol hx

/-! ## The section of an address -/

/-- Where a section that contains the address begins, zero if no section does. -/
inductive IsFloor (m : AddressSpace) (addr : Word) : Word → Prop
  | base {s : Section} : s ∈ m.sections → s.contains addr = true → IsFloor m addr s.base
  | zero : (∀ s ∈ m.sections, s.contains addr = false) → IsFloor m addr 0

/-- The text of an address is what it should be above the section that contains the address. -/
def Exact (m : AddressSpace) (addr : Word) : Prop :=
  ∃ floor, m.IsFloor addr floor ∧ m.Translates floor addr (m.addressText addr)

/-- The search misses the sections that contain the address, and the nearest symbol lies below all
of them. -/
structure Misled (m : AddressSpace) (addr : Word) : Prop where
  missed : m.sectionFor? addr = none
  contained : ∃ s ∈ m.sections, s.contains addr = true
  outside : ∃ x, m.Nearest 0 addr x ∧
    ∀ s ∈ m.sections, s.contains addr = true → x.2 < s.base

theorem searchFloor_of_found {s : Section} (h : m.sectionFor? addr = some s) :
    m.searchFloor addr = s.base := by
  rw [searchFloor, h]
  rfl

theorem searchFloor_of_missed (h : m.sectionFor? addr = none) : m.searchFloor addr = 0 := by
  rw [searchFloor, h]
  rfl

/-- No number is written like a distance. -/
theorem symbolText_ne_hexWord (hne : x.2 ≠ addr) (v : Word) :
    symbolText addr x ≠ Numeral.hexWord v := by
  have hplus : '+' ∈ (symbolText addr x).toList := by simp [symbolText, hne]
  intro heq
  rw [heq] at hplus
  rcases Numeral.isSome_digit?_of_mem_hexPadded hplus with hmark | hdigit
  · exact absurd hmark (by decide)
  · exact absurd hdigit (by decide)

/-- Between a section above the nearest symbol and the address there is no symbol. -/
theorem Nearest.not_considers {base : Word} (hx : m.Nearest 0 addr x) (hlt : x.2 < base)
    (y : String × Word) : ¬ m.Considers base addr y := by
  intro hy
  have hle := hy.floor_le
  rcases hx.beats y ⟨hy.symbol, by bv_omega, hy.le_addr⟩ with hbelow | ⟨heq, -⟩
  · bv_omega
  · bv_omega

theorem exact_of_found {s : Section} (h : m.sectionFor? addr = some s) : m.Exact addr := by
  obtain ⟨hs, hc⟩ := mem_of_sectionFor? h
  have hsearch := m.translates_addressText addr
  rw [searchFloor_of_found h] at hsearch
  exact ⟨s.base, .base hs hc, hsearch⟩

theorem not_misled_of_found {s : Section} (h : m.sectionFor? addr = some s) : ¬ m.Misled addr := by
  intro hmisled
  rw [hmisled.missed] at h
  cases h

/-- A search that is misled gives the distance from a symbol where a number should stand. -/
theorem Misled.not_exact (h : m.Misled addr) : ¬ m.Exact addr := by
  obtain ⟨hmissed, ⟨s, hs, hc⟩, x, hx, houtside⟩ := h
  rintro ⟨floor, hfloor, htext⟩
  have hsearch := m.translates_addressText addr
  rw [searchFloor_of_missed hmissed] at hsearch
  cases hfloor with
  | zero hnone =>
    rw [hnone s hs] at hc
    cases hc
  | @base t ht hct =>
    have hlt := houtside t ht hct
    have hle : t.base ≤ addr := BitVec.le_def.2 ((Section.contains_iff t addr).1 hct).1
    have hnumber := htext.unique (.number (hx.not_considers hlt))
    have hne : x.2 ≠ addr := by
      rintro rfl
      bv_omega
    exact symbolText_ne_hexWord hne addr (((Translates.symbol hx).unique hsearch).trans hnumber)

theorem exact_of_not_misled (h : ¬ m.Misled addr) : m.Exact addr := by
  cases hsection : m.sectionFor? addr with
  | some s => exact exact_of_found hsection
  | none =>
    have hsearch := m.translates_addressText addr
    rw [searchFloor_of_missed hsection] at hsearch
    by_cases hcontained : ∃ s ∈ m.sections, s.contains addr = true
    · rw [Exact]
      generalize m.addressText addr = text at hsearch ⊢
      cases hsearch with
      | @symbol x hx =>
        -- the nearest symbol does not lie below all sections that contain the address
        have hinside : ∃ s ∈ m.sections, s.contains addr = true ∧ s.base ≤ x.2 := by
          by_contra hnone
          refine h ⟨hsection, hcontained, x, hx, fun s hs hc => ?_⟩
          exact BitVec.not_le.1 fun hle => hnone ⟨s, hs, hc, hle⟩
        obtain ⟨s, hs, hc, hle⟩ := hinside
        exact ⟨s.base, .base hs hc, .symbol (hx.raise (by bv_omega) hle)⟩
      | number hnone =>
        obtain ⟨s, hs, hc⟩ := hcontained
        refine ⟨s.base, .base hs hc, .number fun y hy => ?_⟩
        exact hnone y ⟨hy.symbol, by bv_omega, hy.le_addr⟩
    · refine ⟨0, .zero fun s hs => ?_, hsearch⟩
      exact Bool.eq_false_iff.2 fun hc => hcontained ⟨s, hs, hc⟩

/-- The text is what it should be unless the search is misled. -/
theorem exact_iff : m.Exact addr ↔ ¬ m.Misled addr :=
  ⟨fun hexact hmisled => hmisled.not_exact hexact, exact_of_not_misled⟩

/-- In a space that was never given an empty section every text is what it should be. -/
theorem exact_of_reachable (h : Reachable 1 m) (addr : Word) : m.Exact addr := by
  refine exact_of_not_misled fun hmisled => ?_
  obtain ⟨s, hs, hc⟩ := hmisled.contained
  exact not_misled_of_found (((sections_of_reachable h).2.2 addr s).2 ⟨hs, hc⟩) hmisled

/-! ## The order of loads -/

section Loads

variable {m₁ m₂ : AddressSpace} {p q : Program} {base : Word} {ps ps' : List (Program × Word)}
  {s t : Section}

/-- Programs are loaded one after the other, and each goes to the base beside it. -/
inductive Loads : AddressSpace → List (Program × Word) → AddressSpace → Prop
  | nil (m : AddressSpace) : Loads m [] m
  | cons {m m₁ m' : AddressSpace} {p : Program} {base : Word} {ps : List (Program × Word)}
    (requested : Option Word) : p.Built → m.load p requested = .ok (base, m₁) → Loads m₁ ps m' →
    Loads m ((p, base) :: ps) m'

/-- The sections of all programs at their bases. -/
def newSections (ps : List (Program × Word)) : List Section :=
  ps.flatMap fun q => q.1.sectionsAt q.2

theorem newSections_cons (p : Program) (base : Word) (ps : List (Program × Word)) :
    newSections ((p, base) :: ps) = p.sectionsAt base ++ newSections ps := List.flatMap_cons

/-- A load adds the labels of its program to the symbols and takes none away. -/
theorem hasSymbol_withProgram (hplace : p.PlacedAt base q) (hrefuse : m.refusal? q = none) :
    (m.withProgram q base).HasSymbol x ↔ m.HasSymbol x ∨ p.labelAt? base x.1 = some x.2 := by
  have hglobals := getElem?_globalsWith m q x.1
  change (∃ l ∈ m.programs ++ [⟨q.name, base, q.labels⟩], _) ∨ (m.globalsWith q)[x.1]? = _ ↔ _
  rw [hglobals, ← hplace.labels]
  simp only [List.mem_append, List.mem_singleton, Option.or_eq_some_iff,
    Option.ite_none_right_eq_some]
  constructor
  · rintro (⟨l, hl | rfl, hlabel⟩ | ⟨-, hlabel⟩ | ⟨-, hglobal⟩)
    · exact .inl (.inl ⟨l, hl, hlabel⟩)
    · exact .inr hlabel
    · exact .inr hlabel
    · exact .inl (.inr hglobal)
  · rintro ((⟨l, hl, hlabel⟩ | hglobal) | hlabel)
    · exact .inl ⟨l, .inl hl, hlabel⟩
    · refine .inr (.inr ⟨?_, hglobal⟩)
      have hnot : x.1 ∉ q.exported := by
        intro hexported
        rw [fresh_of_refusal? hrefuse _ hexported] at hglobal
        cases hglobal
      rw [if_neg hnot]
    · exact .inl ⟨_, .inr rfl, hlabel⟩

theorem Loads.hasSymbol_iff (h : Loads m ps m') :
    m'.HasSymbol x ↔ m.HasSymbol x ∨ ∃ q ∈ ps, q.1.labelAt? q.2 x.1 = some x.2 := by
  induction h with
  | nil => simp
  | cons requested _ hload _ ih =>
    obtain ⟨q, hplace, hrefuse, rfl⟩ := load_eq_ok hload
    rw [ih, hasSymbol_withProgram (Program.placeAt_spec hplace) hrefuse]
    simp only [List.mem_cons, exists_eq_or_imp, or_assoc]

theorem Loads.sections_eq (h : Loads m ps m') :
    m'.sections = (m.insertAll (newSections ps)).sections := by
  induction h with
  | nil => rfl
  | cons requested _ hload _ ih =>
    obtain ⟨q, hplace, -, rfl⟩ := load_eq_ok hload
    rw [ih, newSections_cons, ← (Program.placeAt_spec hplace).sections]
    simp only [insertAll, List.foldl_append]
    rfl

/-- What is loaded keeps apart from what was there, and from each other. -/
theorem Loads.apart (h : Loads m ps m') : Section.Apart (newSections ps) ∧
    ∀ s ∈ newSections ps, ∀ t ∈ m.sections, t.overlaps s = false := by
  induction h with
  | nil => exact ⟨.nil, by simp [newSections]⟩
  | @cons m m₁ m' p base ps requested hbuilt hload _ ih =>
    obtain ⟨q, hplace, hrefuse, rfl⟩ := load_eq_ok hload
    have hsections := (Program.placeAt_spec hplace).sections
    have hold := refusal?_eq_none hrefuse
    have hmem : ∀ t, t ∈ (m.withProgram q base).sections ↔ t ∈ m.sections ++ q.sections :=
      fun t => (perm_insertAll m q.sections).mem_iff
    rw [newSections_cons, ← hsections]
    refine ⟨List.pairwise_append.2 ⟨(hbuilt.placeAt hplace).order.2, ih.1, ?_⟩, ?_⟩
    · intro s hs t ht
      exact ih.2 t ht s ((hmem s).2 (List.mem_append_right _ hs))
    · intro s hs t ht
      rcases List.mem_append.1 hs with hs | hs
      · exact hold s hs t ht
      · exact ih.2 s hs t ((hmem t).2 (List.mem_append_left _ ht))

theorem Loads.mem_sections_iff (h : Loads m ps m') :
    s ∈ m'.sections ↔ s ∈ m.sections ∨ s ∈ newSections ps := by
  rw [h.sections_eq, (perm_insertAll m _).mem_iff, List.mem_append]

theorem overlaps_of_contains (hs : s.contains addr = true) (ht : t.contains addr = true) :
    s.overlaps t = true := by
  rw [Section.contains_iff] at hs ht
  rw [← Bool.not_eq_false, Section.overlaps_eq_false_iff]
  omega

/-- If a section that was loaded contains the address, then no other one does. -/
theorem Loads.floor_eq (h : Loads m ps m') (hs : s ∈ newSections ps)
    (hc : s.contains addr = true) (hfloor : m'.IsFloor addr floor) : floor = s.base := by
  obtain ⟨hapart, hold⟩ := h.apart
  have hsymm : Std.Symm fun s t : Section => s.overlaps t = false :=
    ⟨fun s t hst => (Section.overlaps_comm t s).trans hst⟩
  cases hfloor with
  | zero hnone =>
    rw [hnone s (h.mem_sections_iff.2 (.inr hs))] at hc
    cases hc
  | @base t ht hct =>
    have hmeets := overlaps_of_contains hct hc
    rcases h.mem_sections_iff.1 ht with ht | ht
    · rw [hold s hs t ht] at hmeets
      cases hmeets
    · by_contra hne
      rw [hapart.forall ht hs fun heq => hne (by rw [heq])] at hmeets
      cases hmeets

/-- The search sees of sections that do not contain the address only what they hide. -/
theorem Loads.sectionFor?_eq (hm : Section.Sorted m.sections) (h : Loads m ps m')
    (hout : ∀ s ∈ newSections ps, s.contains addr = false) : m'.sectionFor? addr =
      (m.sectionFor? addr).filter fun t => ∀ s ∈ newSections ps, t.base ≠ s.base := by
  obtain ⟨hapart, hold⟩ := h.apart
  rw [sectionFor?_congr h.sections_eq, sectionFor?_insertAll hm hapart hold hout]

/-- The order of loads does not matter to a text that is what it should be after either of them. -/
theorem Loads.addressText_eq (hm : Section.Sorted m.sections) (hperm : ps.Perm ps')
    (h : Loads m ps m₁) (h' : Loads m ps' m₂) (hexact : m₁.Exact addr) (hexact' : m₂.Exact addr) :
    m₁.addressText addr = m₂.addressText addr := by
  have hsame : ∀ x, m₁.HasSymbol x ↔ m₂.HasSymbol x := by
    intro x
    simp only [h.hasSymbol_iff, h'.hasSymbol_iff, hperm.mem_iff]
  have hnew : ∀ s, s ∈ newSections ps ↔ s ∈ newSections ps' :=
    fun s => (hperm.flatMap_right _).mem_iff
  by_cases hinside : ∃ s ∈ newSections ps, s.contains addr = true
  · obtain ⟨s, hs, hc⟩ := hinside
    obtain ⟨floor, hfloor, htext⟩ := hexact
    obtain ⟨floor', hfloor', htext'⟩ := hexact'
    rw [h.floor_eq hs hc hfloor] at htext
    rw [h'.floor_eq ((hnew s).1 hs) hc hfloor'] at htext'
    exact (htext.congr hsame).unique htext'
  · have hout : ∀ s ∈ newSections ps, s.contains addr = false :=
      fun s hs => Bool.eq_false_iff.2 fun hc => hinside ⟨s, hs, hc⟩
    have hfound : m₁.sectionFor? addr = m₂.sectionFor? addr := by
      rw [h.sectionFor?_eq hm hout, h'.sectionFor?_eq hm fun s hs => hout s ((hnew s).2 hs)]
      simp only [hnew]
    have htext := (m₁.translates_addressText addr).congr hsame
    rw [searchFloor, hfound] at htext
    exact htext.unique (m₂.translates_addressText addr)

end Loads

/-- **The text of an address.** In a reachable space an address is written as its distance from the
nearest symbol of its section, by name alone if there is none, or as a number if the section has no
symbol before it, unless the search is misled. That takes an empty section where the section begins.
The symbol does not depend on how the symbols are listed, nor the text on the order of the loads
that led to a space, unless the search is misled after one of them. -/
theorem addressText_exact_iff (h : Reachable 0 m) (addr : Word) :
    (m.Exact addr ↔ ¬ m.Misled addr) ∧
      (m.Misled addr → ∀ s ∈ m.sections, s.contains addr = true → m.EmptyAt s.base) ∧
      (∀ l, (∀ x, x ∈ l ↔ m.HasSymbol x) → m.nearestAmong l addr = m.nearestSymbol? addr) ∧
      ∀ ps ps' m₁ m₂, ps.Perm ps' → Loads m ps m₁ → Loads m ps' m₂ →
        ¬ m₁.Misled addr → ¬ m₂.Misled addr → m₁.addressText addr = m₂.addressText addr := by
  refine ⟨exact_iff, ?_, ?_, ?_⟩
  · intro hmisled s hs hc
    exact emptyAt_of_missed h hmisled.missed hs hc
  · intro l hl
    refine Option.ext fun x => ?_
    rw [nearestAmong_eq_some_iff hl, nearestSymbol?_eq_some_iff]
  · intro ps ps' m₁ m₂ hperm h₁ h₂ hnot₁ hnot₂
    exact h₁.addressText_eq h.sorted hperm h₂ (exact_iff.2 hnot₁) (exact_iff.2 hnot₂)

/-! ## Data behind an empty section -/

/-- A program with sixteen bytes of data and a label that lies below them. -/
def dataAbove : Program :=
  let data : Section := .zeroed ".data" 0x1000 16 .data
  Program.addLabel
    { name := "p", base := some 0x1000, sections := [{ data with owner := "p" }] } "a" 0x800

/-- A program with nothing but an empty section, where the data of the other one begins. -/
def nothingAt : Program :=
  let bss : Section := .zeroed ".bss" 0x1000 0 .data
  { name := "q", base := some 0x1000, sections := [{ bss with owner := "q" }] }

theorem built_dataAbove : dataAbove.Built := by
  have hadd : Program.addSection { name := "p", base := some 0x1000 }
      (.zeroed ".data" 0x1000 16 .data) = .ok { name := "p", base := some 0x1000, sections :=
        [{ Section.zeroed ".data" 0x1000 16 .data with owner := "p" }] } := rfl
  exact .addLabel _ _ (.addSection (.fixed "p" 0x1000) hadd)

theorem built_nothingAt : nothingAt.Built := by
  have hadd : Program.addSection { name := "q", base := some 0x1000 }
      (.zeroed ".bss" 0x1000 0 .data) = .ok nothingAt := rfl
  exact .addSection (.fixed "q" 0x1000) hadd

/-- The empty section comes in behind the data. -/
def hiddenData : AddressSpace :=
  (({} : AddressSpace).after (.load dataAbove none)).after (.load nothingAt none)

/-- The data comes in behind the empty section. -/
def openData : AddressSpace :=
  (({} : AddressSpace).after (.load nothingAt none)).after (.load dataAbove none)

theorem loads_hiddenData : Loads {} [(dataAbove, 0x1000), (nothingAt, 0x1000)] hiddenData :=
  .cons none built_dataAbove rfl (.cons none built_nothingAt rfl (.nil _))

theorem loads_openData : Loads {} [(nothingAt, 0x1000), (dataAbove, 0x1000)] openData :=
  .cons none built_nothingAt rfl (.cons none built_dataAbove rfl (.nil _))

theorem reachable_hiddenData : Reachable 0 hiddenData :=
  .call (.call reachable_default ⟨built_dataAbove, fun _ _ => Nat.zero_le _⟩)
    ⟨built_nothingAt, fun _ _ => Nat.zero_le _⟩

theorem misled_hiddenData : hiddenData.Misled 0x1004 := by
  have hnearest : hiddenData.nearestSymbol? 0x1004 = some ("a", 0x800) := rfl
  have hmissed : hiddenData.sectionFor? 0x1004 = none := rfl
  rw [nearestSymbol?_eq_some_iff, searchFloor_of_missed hmissed] at hnearest
  have hbases : hiddenData.sections.map (·.base) = [0x1000, 0x1000] := rfl
  refine ⟨hmissed, ⟨_, List.mem_cons_self, rfl⟩, _, hnearest, ?_⟩
  intro s hs _
  have hbase : s.base = 0x1000 := by simpa [hbases] using List.mem_map_of_mem (f := (·.base)) hs
  rw [hbase]
  decide

/-- A library with its base. -/
def library : Program × Word := (exporting "lib" "helper" 8, 0x1000)

/-- A program that goes behind the library, with its base. -/
def application : Program × Word := (exporting "app" "main" 4, 0x2000)

/-- The data above is hidden, and the label below it taken for its own. A library and a program
behind it give an address the same text in either order. -/
theorem addressText_exact_iff_of_hiddenData :
    Reachable 0 hiddenData ∧ hiddenData.Misled 0x1004 ∧ ¬ hiddenData.Exact 0x1004 ∧
      hiddenData.EmptyAt 0x1000 ∧
      hiddenData.nearestAmong (hiddenData.symbols ++ hiddenData.symbols) 0x1004 =
        some ("a", 0x800) ∧
      ∃ m₁ m₂, Loads {} [library, application] m₁ ∧ Loads {} [application, library] m₂ ∧
        ¬ m₁.Misled 0x2008 ∧ ¬ m₂.Misled 0x2008 ∧
        m₁.addressText 0x2008 = "main+0x4" ∧ m₂.addressText 0x2008 = "main+0x4" := by
  obtain ⟨hexact, hempty, hlists, -⟩ := addressText_exact_iff reachable_hiddenData 0x1004
  obtain ⟨-, -, -, horder⟩ := addressText_exact_iff reachable_default 0x2008
  obtain ⟨m₁, h₁, hfound₁, htext⟩ : ∃ m₁, Loads {} [library, application] m₁ ∧
      (m₁.sectionFor? 0x2008).isSome = true ∧ m₁.addressText 0x2008 = "main+0x4" :=
    ⟨_, .cons (some 0x1000) (built_exporting ..) rfl
      (.cons (some 0x2000) (built_exporting ..) rfl (.nil _)), rfl, rfl⟩
  obtain ⟨m₂, h₂, hfound₂⟩ : ∃ m₂, Loads {} [application, library] m₂ ∧
      (m₂.sectionFor? 0x2008).isSome = true :=
    ⟨_, .cons (some 0x2000) (built_exporting ..) rfl
      (.cons (some 0x1000) (built_exporting ..) rfl (.nil _)), rfl⟩
  have hnot₁ := not_misled_of_found (Option.some_get hfound₁).symm
  have hnot₂ := not_misled_of_found (Option.some_get hfound₂).symm
  have hsame := horder _ _ m₁ m₂ (.swap _ _ _) h₁ h₂ hnot₁ hnot₂
  refine ⟨reachable_hiddenData, misled_hiddenData, fun h => hexact.1 h misled_hiddenData,
    hempty misled_hiddenData _ List.mem_cons_self rfl, ?_, m₁, m₂, h₁, h₂, hnot₁, hnot₂, htext,
    hsame ▸ htext⟩
  rw [hlists _ fun x => by simp [mem_symbols]]
  rfl

/-- The text is wrong in the one space, and right in the other one that the same loads lead to. -/
theorem not_addressText_exact :
    (¬ ∀ (m : AddressSpace) (addr : Word), Reachable 0 m → m.Exact addr) ∧
      (¬ ∀ (m m₁ m₂ : AddressSpace) (ps ps' : List (Program × Word)) (addr : Word),
        Reachable 0 m → ps.Perm ps' → Loads m ps m₁ → Loads m ps' m₂ →
          m₁.addressText addr = m₂.addressText addr) ∧
      hiddenData.addressText 0x1004 = "a+0x804" ∧ openData.addressText 0x1004 = "0x00001004" := by
  have hhidden : hiddenData.addressText 0x1004 = "a+0x804" := rfl
  have hopen : openData.addressText 0x1004 = "0x00001004" := rfl
  refine ⟨fun hall => ?_, fun hall => ?_, hhidden, hopen⟩
  · exact misled_hiddenData.not_exact (hall hiddenData 0x1004 reachable_hiddenData)
  · have hsame := hall {} hiddenData openData _ _ 0x1004 reachable_default (.swap _ _ _)
      loads_hiddenData loads_openData
    rw [hhidden, hopen] at hsame
    exact absurd hsame (by decide)

end Riscv32.AddressSpace
