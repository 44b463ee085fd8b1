import Mathlib.Data.List.GetD
import Mathlib.Data.List.Nodup
import Riscv32.Instruction.Text
import Riscv32.Proofs.Instruction.Place
import Riscv32.Proofs.Instruction.Written

/-!
# Texts that tell words apart

The text of a word can be taken apart again: the mnemonic ends at the first blank, an operand at the
next comma and the offset of an address at its bracket, as no part of a text contains the character
that ends it. Each part is a name or a numeral and stands for one operand only. Hence two decoded
words with the same text have the same mnemonic and operands; what is neither, such as a rounding
mode, is not written. A word that does not decode is written with all its bits behind a mnemonic
that no row has.

## Main definitions

* `Unbroken` — a text without a comma or bracket.

## Main statements

* `Instruction.layout_inj`, a layout gives mnemonic and operands back.
* `Encoding.operandText_inj`, operands with the same text are the same.
* `disassemble_faithful`.
-/
namespace Riscv32

/-! ## Taking texts apart -/

/-- Lists are the same up to the first occurrence of an element, and from there on. -/
theorem append_cons_inj {α : Type} {a : α} {before before' after after' : List α}
    (h : a ∉ before) (h' : a ∉ before') :
    before ++ a :: after = before' ++ a :: after' ↔ before = before' ∧ after = after' := by
  refine ⟨fun heq => ?_, fun ⟨hbefore, hafter⟩ => by rw [hbefore, hafter]⟩
  induction before generalizing before' with
  | nil =>
    cases before' with
    | nil => exact ⟨rfl, (List.cons.inj heq).2⟩
    | cons b before' => exact absurd ((List.cons.inj heq).1 ▸ List.mem_cons_self) h'
  | cons b before ih =>
    cases before' with
    | nil => exact absurd ((List.cons.inj heq).1 ▸ List.mem_cons_self) h
    | cons b' before' =>
      obtain ⟨hfirst, hrest⟩ := List.cons.inj heq
      obtain ⟨hbefore, hafter⟩ := ih (fun hmem => h (List.mem_cons_of_mem _ hmem))
        (fun hmem => h' (List.mem_cons_of_mem _ hmem)) hrest
      exact ⟨by rw [hfirst, hbefore], hafter⟩

/-- A text without a comma or bracket. -/
def Unbroken (s : String) : Prop := ∀ c ∈ s.toList, c ≠ ',' ∧ c ≠ '('

instance (s : String) : Decidable (Unbroken s) :=
  List.decidableBAll (fun c => c ≠ ',' ∧ c ≠ '(') s.toList

namespace Unbroken

variable {s t s' t' : String}

theorem comma_notMem (h : Unbroken s) : ',' ∉ s.toList := fun hmem => (h _ hmem).1 rfl

theorem bracket_notMem (h : Unbroken s) : '(' ∉ s.toList := fun hmem => (h _ hmem).2 rfl

end Unbroken

namespace Instruction

variable {m m' : String} {ops ops' : List String}

/-- Texts without commas are told apart when commas stand between them. -/
theorem intercalate_inj (hlength : ops.length = ops'.length) (h : ∀ s ∈ ops, ',' ∉ s.toList)
    (h' : ∀ s ∈ ops', ',' ∉ s.toList) :
    String.intercalate ", " ops = String.intercalate ", " ops' ↔ ops = ops' := by
  refine ⟨fun heq => ?_, fun heq => by rw [heq]⟩
  induction ops generalizing ops' with
  | nil => exact (List.length_eq_zero_iff.1 hlength.symm).symm
  | cons s rest ih =>
    obtain ⟨s', rest', rfl⟩ := List.exists_cons_of_length_eq_add_one hlength.symm
    obtain ⟨hs, hrest⟩ := List.forall_mem_cons.1 h
    obtain ⟨hs', hrest'⟩ := List.forall_mem_cons.1 h'
    have hlengths : rest.length = rest'.length := Nat.succ.inj hlength
    cases rest with
    | nil =>
      cases List.length_eq_zero_iff.1 hlengths.symm
      simpa using heq
    | cons t rest =>
      obtain ⟨t', rest', rfl⟩ := List.exists_cons_of_length_eq_add_one hlengths.symm
      have hchars := congrArg String.toList heq
      simp only [String.intercalate_cons_cons, String.toList_append, List.append_assoc] at hchars
      change s.toList ++ ',' :: ' ' :: _ = s'.toList ++ ',' :: ' ' :: _ at hchars
      obtain ⟨hfirst, hbehind⟩ := (append_cons_inj hs hs').1 hchars
      rw [String.toList_inj.1 hfirst,
        ih hlengths hrest hrest' (String.toList_inj.1 (List.cons.inj hbehind).2)]

theorem toList_layout (hops : ops ≠ []) :
    (layout m ops).toList = m.toList ++ ' ' :: (String.intercalate ", " ops).toList := by
  rw [layout, if_neg (by simpa using hops)]
  simp

/-- A layout gives mnemonic and operands back. -/
theorem layout_inj (hm : ' ' ∉ m.toList) (hm' : ' ' ∉ m'.toList)
    (heq : layout m ops = layout m' ops') :
    m = m' ∧ String.intercalate ", " ops = String.intercalate ", " ops' := by
  by_cases hops : ops = [] <;> by_cases hops' : ops' = []
  · subst hops hops'
    exact ⟨heq, rfl⟩
  · subst hops
    have hchars : m.toList = _ := (congrArg String.toList heq).trans (toList_layout hops')
    exact absurd (by rw [hchars]; simp) hm
  · subst hops'
    have hchars : m'.toList = _ := (congrArg String.toList heq).symm.trans (toList_layout hops)
    exact absurd (by rw [hchars]; simp) hm'
  · have hchars := congrArg String.toList heq
    rw [toList_layout hops, toList_layout hops'] at hchars
    obtain ⟨hfirst, hbehind⟩ := (append_cons_inj hm hm').1 hchars
    exact ⟨String.toList_inj.1 hfirst, String.toList_inj.1 hbehind⟩

end Instruction

/-! ## Names and numerals -/

theorem Register.getD_inj {names : List String} (hnames : names.Nodup) {i j : Nat} {other : String}
    (hi : i < names.length) (hj : j < names.length) :
    names.getD i other = names.getD j other ↔ i = j := by
  rw [List.getD_eq_getElem _ _ hi, List.getD_eq_getElem _ _ hj, hnames.getElem_inj_iff]

theorem Register.unbroken_getD {names : List String} {other : String} (hother : Unbroken other)
    (hnames : ∀ s ∈ names, Unbroken s) (i : Nat) : Unbroken (names.getD i other) := by
  by_cases hi : i < names.length
  · rw [List.getD_eq_getElem _ _ hi]
    exact hnames _ (List.getElem_mem hi)
  · rw [List.getD_eq_default _ _ (Nat.le_of_not_lt hi)]
    exact hother

theorem Numeral.unbroken_hexPadded (width n : Nat) : Unbroken (hexPadded width n) := by
  intro c hc
  rcases isSome_digit?_of_mem_hexPadded hc with rfl | hdigit
  · decide
  · refine ⟨?_, ?_⟩ <;> rintro rfl <;> exact absurd hdigit (by decide)

theorem Numeral.unbroken_toString (i : Int) : Unbroken (toString i) := by
  intro c hc
  rcases isDigit_of_mem_toString hc with rfl | hdigit
  · decide
  · refine ⟨?_, ?_⟩ <;> rintro rfl <;> exact absurd hdigit (by decide)

/-- A name belongs to its address. -/
theorem Csr.mem_names {a : Word} {name : String} (h : name? a = some name) : (name, a) ∈ names := by
  rw [name?, Option.map_eq_some_iff] at h
  obtain ⟨p, hfind, rfl⟩ := h
  have haddr : p.2 = a := by simpa using List.find?_some hfind
  rw [← haddr]
  exact List.mem_of_find?_eq_some hfind

/-- No name of a control register begins like a numeral. -/
theorem Csr.ne_hexPadded {p : String × Word} (hp : p ∈ names) (width n : Nat) :
    p.1 ≠ Numeral.hexPadded width n := by
  have hfirst : ∀ p ∈ names, p.1.toList.head? ≠ some '0' := by decide
  intro heq
  refine hfirst p hp ?_
  rw [heq, Numeral.toList_hexPadded, List.head?_cons]

namespace Decoded

variable {d d' : Decoded} {i : Nat}

/-- A field of a register is written under the name of the register. -/
theorem registerText_inj (hmask : d.floatMask = d'.floatMask) {f f' : BitVec 5}
    (h : d.operand i = f.setWidth 32) (h' : d'.operand i = f'.setWidth 32) :
    d.registerText i = d'.registerText i ↔ f.setWidth 32 = f'.setWidth 32 := by
  have hlt : ∀ f : BitVec 5, (f.setWidth 32).toNat < Register.count := by
    intro f
    rw [BitVec.toNat_setWidth]
    exact Nat.lt_of_le_of_lt (Nat.mod_le _ _) f.isLt
  rw [registerText, registerText, hmask, h, h', ← BitVec.toNat_inj]
  split
  · exact Register.getD_inj (by decide) (hlt f) (hlt f')
  · exact Register.getD_inj (by decide) (hlt f) (hlt f')

theorem immediateText_inj :
    d.immediateText i = d'.immediateText i ↔ d.operand i = d'.operand i := by
  refine ⟨fun heq => ?_, fun heq => by rw [immediateText, immediateText, heq]⟩
  have hread := congrArg Literal.word? heq
  rw [immediateText, immediateText, Literal.word?_toString, Literal.word?_toString] at hread
  exact Option.some.inj hread

/-- The sign of an upper immediate is not written but among the bits that are. -/
theorem upperText_inj {f f' : BitVec 20} (h : d.operand i = f.signExtend 32)
    (h' : d'.operand i = f'.signExtend 32) :
    d.upperText i = d'.upperText i ↔ f.signExtend 32 = f'.signExtend 32 := by
  refine ⟨fun heq => ?_, fun heq => by rw [upperText, upperText, h, h', heq]⟩
  rw [upperText, upperText, Numeral.hex_inj, BitVec.toNat_inj, h, h',
    Word.extractLsb'_signExtend _ (by decide) (by decide),
    Word.extractLsb'_signExtend _ (by decide) (by decide), BitVec.extractLsb'_eq_self,
    BitVec.extractLsb'_eq_self] at heq
  rw [heq]

/-- A control register is written under its name or number. -/
theorem csrText_inj : d.csrText i = d'.csrText i ↔ d.operand i = d'.operand i := by
  refine ⟨fun heq => ?_, fun heq => by rw [csrText, csrText, heq]⟩
  have hnodup : (Csr.names.map Prod.fst).Nodup := by decide
  rw [csrText, csrText] at heq
  cases hname : Csr.name? (d.operand i) with
  | some name =>
    have hmem := Csr.mem_names hname
    cases hname' : Csr.name? (d'.operand i) with
    | some name' =>
      rw [hname, hname', Option.getD_some, Option.getD_some] at heq
      exact (Prod.ext_iff.1
        (List.inj_on_of_nodup_map hnodup hmem (Csr.mem_names hname') heq)).2
    | none =>
      rw [hname, hname', Option.getD_some, Option.getD_none] at heq
      exact absurd heq (Csr.ne_hexPadded hmem _ _)
  | none =>
    cases hname' : Csr.name? (d'.operand i) with
    | some name' =>
      rw [hname, hname', Option.getD_some, Option.getD_none] at heq
      exact absurd heq.symm (Csr.ne_hexPadded (Csr.mem_names hname') _ _)
    | none =>
      rw [hname, hname', Option.getD_none, Option.getD_none, Numeral.hexPadded_inj] at heq
      exact BitVec.eq_of_toNat_eq heq

theorem unbroken_registerText (d : Decoded) (i : Nat) : Unbroken (d.registerText i) := by
  rw [registerText]
  split
  · exact Register.unbroken_getD (by decide) (by decide) _
  · exact Register.unbroken_getD (by decide) (by decide) _

theorem unbroken_immediateText (d : Decoded) (i : Nat) : Unbroken (d.immediateText i) :=
  Numeral.unbroken_toString _

theorem unbroken_upperText (d : Decoded) (i : Nat) : Unbroken (d.upperText i) := by
  rw [upperText, Numeral.hex_eq_hexPadded]
  exact Numeral.unbroken_hexPadded _ _

theorem unbroken_csrText (d : Decoded) (i : Nat) : Unbroken (d.csrText i) := by
  have hnames : ∀ p ∈ Csr.names, Unbroken p.1 := by decide
  rw [csrText]
  cases hname : Csr.name? (d.operand i) with
  | some name => exact hnames _ (Csr.mem_names hname)
  | none => exact Numeral.unbroken_hexPadded _ _

/-- An address is written as its offset and, in brackets, its register. -/
theorem address_inj {offset offset' register register' : String} (h : Unbroken offset)
    (h' : Unbroken offset') :
    offset ++ "(" ++ register ++ ")" = offset' ++ "(" ++ register' ++ ")" ↔
      offset = offset' ∧ register = register' := by
  refine ⟨fun heq => ?_, fun ⟨hoffset, hregister⟩ => by rw [hoffset, hregister]⟩
  have hchars := congrArg String.toList heq
  simp only [String.toList_append, List.append_assoc] at hchars
  obtain ⟨hoffset, hregister⟩ := (append_cons_inj h.bracket_notMem h'.bracket_notMem).1 hchars
  exact ⟨String.toList_inj.1 hoffset, String.toList_inj.1 (List.append_cancel_right hregister)⟩

theorem bracketed_inj {register register' : String} :
    "(" ++ register ++ ")" = "(" ++ register' ++ ")" ↔ register = register' := by
  refine ⟨fun heq => ?_, fun heq => by rw [heq]⟩
  have hchars := congrArg String.toList heq
  simp only [String.toList_append, List.append_assoc] at hchars
  exact String.toList_inj.1 (List.append_cancel_right (List.cons.inj hchars).2)

/-- No operand is written with a comma. -/
theorem comma_notMem_operandText (d : Decoded) : ∀ s ∈ d.operandText, ',' ∉ s.toList := by
  have hregister := fun i => (d.unbroken_registerText i).comma_notMem
  have himmediate := fun i => (d.unbroken_immediateText i).comma_notMem
  have hupper := fun i => (d.unbroken_upperText i).comma_notMem
  have hcsr := fun i => (d.unbroken_csrText i).comma_notMem
  unfold operandText
  split <;> simp [toString, hregister, himmediate, hupper, hcsr]

end Decoded

/-- Operands of two words of a row are the same if their text is. -/
theorem Encoding.operandText_inj (e : Encoding) (w w' : Word) :
    (e.decoded w).operandText = (e.decoded w').operandText ↔ e.operands w = e.operands w' := by
  obtain ⟨m, opcode, f3, selector, format, mask⟩ := e
  have hoffset := Decoded.unbroken_immediateText
  cases format <;> simp only [Decoded.operandText, Encoding.operands, Encoding.decoded,
    Format.operands, List.cons.injEq, and_true]
  case r => refine and_congr ?_ (and_congr ?_ ?_) <;> apply Decoded.registerText_inj <;> rfl
  case rUnary => refine and_congr ?_ ?_ <;> apply Decoded.registerText_inj <;> rfl
  case r4 =>
    refine and_congr ?_ (and_congr ?_ (and_congr ?_ ?_)) <;> apply Decoded.registerText_inj <;> rfl
  case i | shift | b =>
    refine and_congr ?_ (and_congr ?_ Decoded.immediateText_inj) <;>
      apply Decoded.registerText_inj <;> rfl
  case load | s =>
    refine and_congr ?_ ((Decoded.address_inj (hoffset _ _) (hoffset _ _)).trans
      (and_comm.trans (and_congr ?_ Decoded.immediateText_inj))) <;>
        apply Decoded.registerText_inj <;> rfl
  case u =>
    refine and_congr ?_ (Decoded.upperText_inj rfl rfl)
    apply Decoded.registerText_inj <;> rfl
  case j =>
    refine and_congr ?_ Decoded.immediateText_inj
    apply Decoded.registerText_inj <;> rfl
  case csr =>
    refine and_congr ?_ (and_congr Decoded.csrText_inj ?_) <;>
      apply Decoded.registerText_inj <;> rfl
  case csrImm =>
    refine and_congr ?_ (and_congr Decoded.csrText_inj Decoded.immediateText_inj)
    apply Decoded.registerText_inj <;> rfl
  case amo =>
    refine and_congr ?_ (and_comm.trans (and_congr (Decoded.bracketed_inj.trans ?_) ?_)) <;>
      apply Decoded.registerText_inj <;> rfl
  case lr =>
    refine and_congr ?_ (Decoded.bracketed_inj.trans ?_) <;> apply Decoded.registerText_inj <;> rfl

/-! ## Words -/

section Words

variable {w w' : Word} {d d' : Decoded} {e : DecodeError}

theorem Encoding.mnemonic_of_mem_table {e : Encoding} (he : e ∈ table) :
    ' ' ∉ e.mnemonic.toList ∧ e.mnemonic ≠ ".word" := by
  revert e
  decide +kernel

theorem disassemble_of_decode (h : decode w = .ok d) :
    disassemble w = Instruction.layout d.mnemonic d.operandText := by
  rw [disassemble, h]
  rfl

theorem disassemble_of_error (h : decode w = .error e) :
    disassemble w = Instruction.layout ".word" [Numeral.hexWord w] := by
  rw [disassemble, h, Instruction.layout, String.intercalate_singleton]
  rfl

theorem length_operandText (h : d.format = d'.format) :
    d.operandText.length = d'.operandText.length := by
  obtain ⟨m, ops, w, format, mask⟩ := d
  obtain ⟨m', ops', w', format', mask'⟩ := d'
  cases h
  cases format <;> rfl

/-- Decoded words with the same mnemonic are of the same row. -/
theorem row_unique {e e' : Encoding} (he : e ∈ Encoding.table) (he' : e' ∈ Encoding.table)
    (hmnemonic : e.mnemonic = e'.mnemonic) : e = e' := by
  have hfind := Encoding.ofMnemonic?_of_mem_table he
  rw [hmnemonic, Encoding.ofMnemonic?_of_mem_table he'] at hfind
  exact (Option.some.inj hfind).symm

/-- **A text gives mnemonic and operands.** Two words that decode have the same text exactly
if they have the same mnemonic and operands, no word that decodes has the text of one that does not,
and words that do not decode are told apart. -/
theorem disassemble_faithful (w w' : Word) :
    (∀ d d', decode w = .ok d → decode w' = .ok d' →
        (disassemble w = disassemble w' ↔
          d.mnemonic = d'.mnemonic ∧ d.operands = d'.operands)) ∧
      (∀ d e, decode w = .ok d → decode w' = .error e → disassemble w ≠ disassemble w') ∧
      ∀ e e', decode w = .error e → decode w' = .error e' →
        (disassemble w = disassemble w' ↔ w = w') := by
  refine ⟨?_, ?_, ?_⟩
  · intro d d' hd hd'
    rw [disassemble_of_decode hd, disassemble_of_decode hd']
    obtain ⟨-, e, he, -, rfl⟩ := exists_row_of_decode hd
    obtain ⟨-, e', he', -, rfl⟩ := exists_row_of_decode hd'
    constructor
    · intro heq
      obtain ⟨hmnemonic, hops⟩ := Instruction.layout_inj (Encoding.mnemonic_of_mem_table he).1
        (Encoding.mnemonic_of_mem_table he').1 heq
      obtain rfl := row_unique he he' hmnemonic
      have hlength : (e.decoded w).operandText.length = (e.decoded w').operandText.length :=
        length_operandText rfl
      have htexts := (Instruction.intercalate_inj hlength
        (Decoded.comma_notMem_operandText _) (Decoded.comma_notMem_operandText _)).1 hops
      exact ⟨rfl, (e.operandText_inj w w').1 htexts⟩
    · rintro ⟨hmnemonic, hoperands⟩
      obtain rfl := row_unique he he' hmnemonic
      rw [(e.operandText_inj w w').2 hoperands]
      rfl
  · intro d e hd he heq
    rw [disassemble_of_decode hd, disassemble_of_error he] at heq
    obtain ⟨-, row, hrow, -, rfl⟩ := exists_row_of_decode hd
    obtain ⟨hblank, hword⟩ := Encoding.mnemonic_of_mem_table hrow
    exact hword (Instruction.layout_inj hblank (by decide) heq).1
  · intro e e' he he'
    refine ⟨fun heq => ?_, fun heq => by rw [heq]⟩
    rw [disassemble_of_error he, disassemble_of_error he'] at heq
    obtain ⟨-, hops⟩ := Instruction.layout_inj (by decide) (by decide) heq
    rw [String.intercalate_singleton, String.intercalate_singleton] at hops
    exact BitVec.eq_of_toNat_eq (Numeral.hexPadded_inj.1 hops)

/-- Two additions that differ in the rounding mode alone have the same text. No data has it, and
data of all zeros and of all ones have different ones. -/
theorem disassemble_faithful_of_roundingMode :
    (0x00208253 : Word).funct3 ≠ (0x00209253 : Word).funct3 ∧
      disassemble 0x00208253 = disassemble 0x00209253 ∧
      disassemble 0x00208253 ≠ disassemble 0 ∧ disassemble 0 ≠ disassemble 0xFFFFFFFF := by
  have hadd : ∀ w : Word, (Encoding.rounded "fadd.s" 0).accepts w → w.extractLsb' 0 2 = 3 →
      decode w = .ok ((Encoding.rounded "fadd.s" 0).decoded w) :=
    fun w => decode_of_accepts (by decide +kernel)
  have hzeros : decode 0 = .error (.illegalInstruction 0) := by
    rw [decode_eq_search]
    decide
  have hones : decode 0xFFFFFFFF = .error (.illegalInstruction 0xFFFFFFFF) := by
    rw [decode_eq_search]
    decide +kernel
  have hfirst := hadd 0x00208253 (by decide) (by decide)
  have hsecond := hadd 0x00209253 (by decide) (by decide)
  obtain ⟨hsame, -, -⟩ := disassemble_faithful 0x00208253 0x00209253
  obtain ⟨-, hdata, -⟩ := disassemble_faithful 0x00208253 0
  obtain ⟨-, -, hapart⟩ := disassemble_faithful 0 0xFFFFFFFF
  refine ⟨by decide, (hsame _ _ hfirst hsecond).2 (by decide), hdata _ _ hfirst hzeros, ?_⟩
  rw [Ne, hapart _ _ hzeros hones]
  decide

end Words
end Riscv32
