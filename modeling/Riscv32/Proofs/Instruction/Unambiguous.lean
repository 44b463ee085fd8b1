import Mathlib.Tactic.Basic
import Mathlib.Data.List.Perm.Basic
import Std.Data.TreeMap.Lemmas
import Riscv32.Instruction.Decode

/-!
# Unambiguous decoding

Two rows of the opcode tables never accept the same word: their opcodes differ, or they fix
different minor opcodes, or their selectors clash. So it does not matter in which order the rows
are searched, whether they are indexed by opcode, or whether some words are known by heart.

## Main definitions

* `Encoding.excludes` — whether two rows cannot accept the same word, as seen from the rows alone.
* `Encoding.search` — decoding by a list of rows, without an index and without known words.

## Main statements

* `Encoding.pairwise_excludes_table`, any two rows of the tables exclude each other.
* `OpcodeIndex.find?_ofRows`, an index finds what a search of the whole list finds.
* `decode_of_accepts`, a word decodes through whichever row accepts it.
* `decode_unambiguous`, decoding is given by the one row that accepts the word.
-/
namespace Riscv32

/-! ## Rows that exclude each other -/

/-- Whether two selectors disagree on a field that both of them fix. -/
def Selector.excludes : Selector → Selector → Bool
  | .funct7 f, .funct7 g | .funct7 f, .funct7Rs2 g _ | .funct7Rs2 f _, .funct7 g => f != g
  | .funct7Rs2 f r, .funct7Rs2 g s => f != g || r != s
  | .funct5 f, .funct5 g | .funct5 f, .funct5Rs2 g _ | .funct5Rs2 f _, .funct5 g => f != g
  | .fmt f, .fmt g => f != g
  | .exact v, .exact w => v != w
  | _, _ => false

theorem Selector.not_accepts_of_excludes {s t : Selector} (h : s.excludes t) {w : Word}
    (hs : s.accepts w) : ¬ t.accepts w := by
  intro ht
  cases s <;> cases t <;> simp_all [excludes, accepts]

namespace Encoding

/-- Whether two rows cannot accept the same word. -/
def excludes (e f : Encoding) : Bool :=
  e.opcode != f.opcode || e.funct3.any (fun m => f.funct3.any (m != ·))
    || e.selector.excludes f.selector

theorem accepts_iff {e : Encoding} {w : Word} :
    e.accepts w ↔ w.opcode = e.opcode ∧ (∀ m ∈ e.funct3, w.funct3 = m) ∧ e.selector.accepts w := by
  simp [accepts, Option.all_eq_true, and_assoc]

theorem not_accepts_of_excludes {e f : Encoding} (h : e.excludes f) {w : Word}
    (he : e.accepts w) : ¬ f.accepts w := by
  intro hf
  obtain ⟨hopcode, hminor, hselector⟩ := accepts_iff.1 he
  obtain ⟨hopcode', hminor', hselector'⟩ := accepts_iff.1 hf
  simp only [excludes, Bool.or_eq_true, bne_iff_ne, Option.any_eq_true] at h
  rcases h with (h | ⟨m, hm, n, hn, hne⟩) | h
  · exact h (hopcode.symm.trans hopcode')
  · exact hne ((hminor m hm).symm.trans (hminor' n hn))
  · exact Selector.not_accepts_of_excludes h hselector hselector'

/-- Any two rows of the tables exclude each other. -/
theorem pairwise_excludes_table : table.Pairwise (fun e f => e.excludes f) := by
  decide +kernel

/-- A list of rows that exclude each other has at most one row for a word. -/
theorem length_filter_accepts_le {rows : List Encoding}
    (h : rows.Pairwise (fun e f => e.excludes f)) (w : Word) :
    (rows.filter (·.accepts w)).length ≤ 1 := by
  induction rows with
  | nil => simp
  | cons e rows ih =>
    obtain ⟨hhead, htail⟩ := List.pairwise_cons.1 h
    by_cases he : e.accepts w
    · have hnone : rows.filter (·.accepts w) = [] :=
        List.filter_eq_nil_iff.2 fun f hf => not_accepts_of_excludes (hhead f hf) he
      simp [he, hnone]
    · simpa [he] using ih htail

/-- The rows of the tables that accept a word are those it decodes through, so there is only one. -/
theorem filter_accepts_eq {e : Encoding} (he : e ∈ table) {w : Word} (hw : e.accepts w) :
    table.filter (·.accepts w) = [e] := by
  have hmem : e ∈ table.filter (·.accepts w) := List.mem_filter.2 ⟨he, hw⟩
  have hlength := length_filter_accepts_le pairwise_excludes_table w
  obtain ⟨f, hf⟩ := List.length_eq_one_iff.1
    (Nat.le_antisymm hlength (List.length_pos_of_mem hmem))
  rw [hf] at hmem ⊢
  rw [List.mem_singleton.1 hmem]

/-- The order of the rows does not matter to a search. -/
theorem find?_of_perm {rows : List Encoding} (h : rows.Perm table) (w : Word) :
    rows.find? (·.accepts w) = table.find? (·.accepts w) := by
  have hperm : (rows.filter (·.accepts w)).Perm (table.filter (·.accepts w)) := h.filter _
  rw [← List.head?_filter, ← List.head?_filter]
  by_cases hsome : ∃ e ∈ table, e.accepts w
  · obtain ⟨e, he, hw⟩ := hsome
    rw [filter_accepts_eq he hw] at hperm ⊢
    rw [List.perm_singleton.1 hperm]
  · have hnone : table.filter (·.accepts w) = [] :=
      List.filter_eq_nil_iff.2 fun e he hw => hsome ⟨e, he, hw⟩
    rw [hnone] at hperm ⊢
    rw [List.perm_nil.1 hperm]

/-- Decoding by a search of a list of rows, without an index and without known words. -/
def search (rows : List Encoding) (w : Word) : Except DecodeError Decoded :=
  if w.extractLsb' 0 2 = 3 then decodeThrough w (rows.find? (·.accepts w))
  else .error (.illegalInstruction w)

theorem search_of_accepts {e : Encoding} (he : e ∈ table) {w : Word} (hw : e.accepts w)
    (hlow : w.extractLsb' 0 2 = 3) : search table w = .ok (e.decoded w) := by
  rw [search, if_pos hlow, ← List.head?_filter, filter_accepts_eq he hw, List.head?_cons,
    decodeThrough]

theorem search_of_perm {rows : List Encoding} (h : rows.Perm table) (w : Word) :
    search rows w = search table w := by
  rw [search, search, find?_of_perm h]

end Encoding

/-! ## The index -/

namespace OpcodeIndex

theorem rows_add (index : OpcodeIndex) (e : Encoding) (opcode : BitVec 5) :
    (index.add e).rows opcode = index.rows opcode ++ [e].filter (·.opcode == opcode) := by
  by_cases h : e.opcode = opcode
  · subst h
    simp [add, rows]
  · have hnat : e.opcode.toNat ≠ opcode.toNat := fun heq => h (BitVec.eq_of_toNat_eq heq)
    simp [add, rows, Std.TreeMap.getD_insert, h, hnat]

theorem rows_foldl_add (list : List Encoding) (index : OpcodeIndex) (opcode : BitVec 5) :
    (list.foldl add index).rows opcode
      = index.rows opcode ++ list.filter (·.opcode == opcode) := by
  induction list generalizing index with
  | nil => simp
  | cons e list ih =>
    rw [List.foldl_cons, ih, rows_add, List.append_assoc, ← List.filter_append,
      List.singleton_append]

/-- An index finds what a search of the whole list finds: the rows that it leaves out have
another opcode, and those of one opcode stay in order. -/
theorem find?_ofRows (list : List Encoding) (w : Word) :
    (ofRows list).find? w = list.find? (·.accepts w) := by
  have hempty : OpcodeIndex.rows {} w.opcode = [] := by simp [rows]
  rw [find?, ofRows, rows_foldl_add, hempty, List.nil_append, List.find?_filter]
  congr 1
  funext e
  have hopcode : e.accepts w → e.opcode = w.opcode := fun h => (Encoding.accepts_iff.1 h).1.symm
  cases h : e.accepts w with
  | false => simp
  | true => simp [hopcode h]

end OpcodeIndex

/-! ## The known words -/

/-- A known word decodes as its row says. -/
theorem Decoded.exists_row_of_mem_known {d : Decoded} (h : d ∈ known) :
    d.encoding.extractLsb' 0 2 = 3 ∧
      ∃ e ∈ Encoding.table, e.accepts d.encoding ∧ d = e.decoded d.encoding := by
  revert d
  decide +kernel

theorem Decoded.known?_eq_some {d : Decoded} {w : Word} (h : known? w = some d) :
    d ∈ known ∧ d.encoding = w :=
  ⟨List.mem_of_find?_eq_some h, by simpa using List.find?_some h⟩

/-! ## Decoding -/

/-- Neither the index nor the known words can be seen from the result. -/
theorem OpcodeIndex.decode_ofRows {rows : List Encoding} (h : rows.Perm Encoding.table) (w : Word) :
    (ofRows rows).decode w = Encoding.search rows w := by
  rw [OpcodeIndex.decode]
  cases hknown : Decoded.known? w with
  | none => rw [Encoding.search, find?_ofRows]
  | some d =>
    obtain ⟨hmem, rfl⟩ := Decoded.known?_eq_some hknown
    obtain ⟨hlow, e, he, hw, hd⟩ := Decoded.exists_row_of_mem_known hmem
    rw [Encoding.search_of_perm h, Encoding.search_of_accepts he hw hlow, ← hd]

theorem decode_eq_search (w : Word) : decode w = Encoding.search Encoding.table w := by
  unfold decode OpcodeIndex.standard
  exact OpcodeIndex.decode_ofRows (List.Perm.refl _) w

/-- A word decodes through whichever row accepts it. -/
theorem decode_of_accepts {e : Encoding} (he : e ∈ Encoding.table) {w : Word} (hw : e.accepts w)
    (hlow : w.extractLsb' 0 2 = 3) : decode w = .ok (e.decoded w) := by
  rw [decode_eq_search, Encoding.search_of_accepts he hw hlow]

/-- A word that decodes does so through a row that accepts it. -/
theorem exists_row_of_decode {w : Word} {d : Decoded} (h : decode w = .ok d) :
    w.extractLsb' 0 2 = 3 ∧ ∃ e ∈ Encoding.table, e.accepts w ∧ d = e.decoded w := by
  rw [decode_eq_search, Encoding.search] at h
  split at h
  next hlow =>
    cases hfind : Encoding.table.find? (·.accepts w) with
    | some e =>
      rw [hfind] at h
      cases h
      have hw : e.accepts w := by simpa using List.find?_some hfind
      exact ⟨hlow, e, List.mem_of_find?_eq_some hfind, hw, rfl⟩
    | none =>
      rw [hfind] at h
      cases h
  next => cases h

/-- Decoding is given by the one row that accepts the word, however the rows are kept. -/
theorem decode_unambiguous (w : Word) :
    (Encoding.table.filter (·.accepts w)).length ≤ 1 ∧
      ((∃ d, decode w = .ok d) ↔
        w.extractLsb' 0 2 = 3 ∧ ∃ e ∈ Encoding.table, e.accepts w) ∧
      (∀ d, decode w = .ok d → ∃ e, Encoding.table.filter (·.accepts w) = [e] ∧
        d = ⟨e.mnemonic, e.operands w, w, e.format, e.floatMask⟩) ∧
      ∀ rows : List Encoding, rows.Perm Encoding.table →
        (OpcodeIndex.ofRows rows).decode w = decode w ∧ Encoding.search rows w = decode w := by
  refine ⟨Encoding.length_filter_accepts_le Encoding.pairwise_excludes_table w, ⟨?_, ?_⟩, ?_, ?_⟩
  · rintro ⟨d, hd⟩
    obtain ⟨hlow, e, he, hw, -⟩ := exists_row_of_decode hd
    exact ⟨hlow, e, he, hw⟩
  · rintro ⟨hlow, e, he, hw⟩
    exact ⟨e.decoded w, decode_of_accepts he hw hlow⟩
  · intro d hd
    obtain ⟨-, e, he, hw, rfl⟩ := exists_row_of_decode hd
    exact ⟨e, Encoding.filter_accepts_eq he hw, rfl⟩
  · intro rows hrows
    have hsearch : Encoding.search rows w = decode w := by
      rw [Encoding.search_of_perm hrows, decode_eq_search]
    exact ⟨(OpcodeIndex.decode_ofRows hrows w).trans hsearch, hsearch⟩

/-- The row of `fadd.d` leaves open the minor opcode that other rows of its opcode fix. It is the
only one for this word, also with the rows in the opposite order. -/
theorem decode_unambiguous_fadd :
    (Encoding.table.filter (·.accepts 0x0220F253)).length ≤ 1 ∧
      Encoding.table.reverse.Perm Encoding.table ∧
      (OpcodeIndex.ofRows Encoding.table.reverse).decode 0x0220F253 = decode 0x0220F253 ∧
      decode 0x0220F253 = .ok ⟨"fadd.d", [4, 1, 2], 0x0220F253, .r, 0b0111⟩ := by
  have hperm : Encoding.table.reverse.Perm Encoding.table := List.reverse_perm _
  obtain ⟨hone, hiff, hrow, horder⟩ := decode_unambiguous 0x0220F253
  refine ⟨hone, hperm, (horder _ hperm).1, ?_⟩
  have hfilter : Encoding.table.filter (·.accepts 0x0220F253)
      = [.rounded "fadd.d" 0b0000001] := by decide +kernel
  obtain ⟨d, hd⟩ := hiff.2
    ⟨by decide, .rounded "fadd.d" 0b0000001, by decide +kernel, by decide⟩
  obtain ⟨e, he, rfl⟩ := hrow d hd
  obtain rfl := List.singleton_inj.1 (hfilter.symm.trans he)
  rw [hd]
  rfl

end Riscv32
