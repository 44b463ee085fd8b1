import Riscv32.Instruction.Operand
import Riscv32.Proofs.Text.Digit

/-!
# What literals stand for

A literal has at most one minus sign, in front of its body, and a body is a numeral behind the mark
of its base. However many digits there are, it stands for its number modulo the size of a word if
that number is a signed or an unsigned word, and for nothing otherwise. All else is refused, unless
a numeral has a sign of its own: such a token is taken for the number behind both of its signs.

## Main definitions

* `Literal.Body`, `Literal.Spells` — what a token spells, and with which sign at its numeral.
* `Literal.Means` — a literal and its number.
* `Literal.Malformed`, `Literal.Misread` — tokens that are no literals, and those of them that are
  taken for a number.

## Main statements

* `Literal.magnitude?_eq_some_iff`, the bodies that are read.
* `Literal.word?_of_spells` and `Literal.word?_eq_none`, what a token stands for.
* `Literal.word?_exact`, the word of a literal.
* `Literal.malformed_refused_iff`, the tokens that are refused, as numbers and as operands.
-/
namespace Riscv32.Literal

open Numeral

variable {s : Sign} {cs : List Char} {v : Int} {token : String}

/-! ## The grammar -/

/-- A body without underscores. It is a numeral behind the mark of its base, and `s` is the sign
between the mark and the digits. -/
inductive Body (s : Sign) : List Char → Int → Prop
  | decimal {cs : List Char} {v : Int} (h : Signed s 10 cs v) : Body s cs v
  | hexadecimal {c : Char} {cs : List Char} {v : Int} (hmark : c = 'x' ∨ c = 'X')
    (h : Signed s 16 cs v) : Body s ('0' :: c :: cs) v
  | binary {c : Char} {cs : List Char} {v : Int} (hmark : c = 'b' ∨ c = 'B')
    (h : Signed s 2 cs v) : Body s ('0' :: c :: cs) v

/-- A body, underscores aside, or a minus sign and a body. -/
inductive Spells (s : Sign) : List Char → Int → Prop
  | plain {cs : List Char} {v : Int} (h : Body s (cs.filter (· != '_')) v) : Spells s cs v
  | negative {cs : List Char} {v : Int} (h : Body s (cs.filter (· != '_')) v) :
    Spells s ('-' :: cs) (-v)

/-- A literal and its number: no sign stands between the mark and the digits. -/
def Means (token : String) (v : Int) : Prop := Spells .absent token.toList v

/-- A token that is no literal. -/
def Malformed (token : String) : Prop := ∀ v, ¬Means token v

/-- The numbers that are signed or unsigned words. -/
def InRange (v : Int) : Prop := -2 ^ 31 ≤ v ∧ v ≤ 2 ^ 32 - 1

instance : Decidable (InRange v) := inferInstanceAs (Decidable (_ ∧ _))

/-- A token that spells a number in range with a sign between the mark and the digits. -/
def Misread (token : String) : Prop :=
  ∃ s v, s ≠ Sign.absent ∧ Spells s token.toList v ∧ InRange v

/-! ## Bodies -/

theorem not_mem_of_signed {base : Nat} {c : Char} (h : Signed s base cs v) (hbase : base ≤ 16)
    (hc : digit? base c = none) (hsign : c ∉ s.text) : c ∉ cs := by
  obtain ⟨ds, n, hn, rfl, -⟩ := h
  exact List.mem_append.not.2 (not_or.2 ⟨hsign, hn.not_mem hbase hc⟩)

/-- The letters of the marks are no decimal digits, so that a decimal body is not taken for one
behind a mark. -/
theorem magnitude?_of_decimal (h : Signed s 10 cs v) : magnitude? cs = signed? 10 cs := by
  have hmark (c : Char) (hdigit : digit? 10 c = none) (hsign : c ∉ ['+', '-']) : c ∉ cs :=
    not_mem_of_signed h (by decide) hdigit fun hc => hsign (s.text_subset hc)
  unfold magnitude?
  split
  · exact absurd (by simp) (hmark 'x' (by decide) (by decide))
  · exact absurd (by simp) (hmark 'X' (by decide) (by decide))
  · exact absurd (by simp) (hmark 'b' (by decide) (by decide))
  · exact absurd (by simp) (hmark 'B' (by decide) (by decide))
  · rfl

/-- The bodies that are read are those with any sign or none. -/
theorem magnitude?_eq_some_iff : magnitude? cs = some v ↔ ∃ s, Body s cs v := by
  have hread {base : Nat} {cs : List Char} (hbase : base ≤ 16) :
      signed? base cs = some v ↔ ∃ s, Signed s base cs v := signed?_eq_some_iff hbase
  constructor
  · intro h
    unfold magnitude? at h
    split at h
    · exact ((hread (by decide)).1 h).imp fun _ h => .hexadecimal (.inl rfl) h
    · exact ((hread (by decide)).1 h).imp fun _ h => .hexadecimal (.inr rfl) h
    · exact ((hread (by decide)).1 h).imp fun _ h => .binary (.inl rfl) h
    · exact ((hread (by decide)).1 h).imp fun _ h => .binary (.inr rfl) h
    · exact ((hread (by decide)).1 h).imp fun _ h => .decimal h
  · rintro ⟨s, h⟩
    cases h with
    | decimal h =>
      rw [magnitude?_of_decimal h]
      exact (hread (by decide)).2 ⟨s, h⟩
    | hexadecimal hmark h => rcases hmark with rfl | rfl <;> exact (hread (by decide)).2 ⟨s, h⟩
    | binary hmark h => rcases hmark with rfl | rfl <;> exact (hread (by decide)).2 ⟨s, h⟩

/-- Only a decimal numeral can have a minus sign for its first character, and it is that of the
numeral. -/
theorem Body.of_minus (h : Body s ('-' :: cs) v) : Body .absent cs (-v) := by
  cases h with
  | decimal h =>
    obtain ⟨ds, n, hn, htext, rfl⟩ := h
    cases s with
    | absent =>
      obtain rfl : '-' :: cs = ds := htext
      exact absurd List.mem_cons_self (hn.not_mem (by decide) digit?_minus)
    | plus => cases htext
    | minus =>
      cases htext
      exact .decimal ⟨ds, n, hn, rfl, (Int.neg_neg _).symm⟩

/-- In the body of a literal there is no sign. -/
theorem Body.not_mem_sign (h : Body .absent cs v) {c : Char} (hc : c ∈ ['+', '-']) : c ∉ cs := by
  have hdigits {base : Nat} {ds : List Char} (hbase : base ≤ 16) (h : Signed .absent base ds v) :
      c ∉ ds := by
    refine not_mem_of_signed h hbase ?_ List.not_mem_nil
    rcases List.mem_pair.1 hc with rfl | rfl
    · exact digit?_plus
    · exact digit?_minus
  have hmarked {mark : Char} {ds : List Char} (hmark : mark ∉ ['+', '-']) (h : c ∉ ds) :
      c ∉ '0' :: mark :: ds := by
    have hzero : c ≠ '0' := by
      rintro rfl
      exact absurd hc (by decide)
    have hother : c ≠ mark := by
      rintro rfl
      exact hmark hc
    rw [List.mem_cons, List.mem_cons, not_or, not_or]
    exact ⟨hzero, hother, h⟩
  cases h with
  | decimal h => exact hdigits (by decide) h
  | hexadecimal hmark h =>
    refine hmarked ?_ (hdigits (by decide) h)
    rcases hmark with rfl | rfl <;> decide
  | binary hmark h =>
    refine hmarked ?_ (hdigits (by decide) h)
    rcases hmark with rfl | rfl <;> decide

/-! ## Doublewords -/

/-- On the way through doublewords no number in range is lost. The number at the upper end turns
into the one at the lower end, and neither is a word. -/
theorem fitsWord_ofInt (hv : -0x8000000000000000 ≤ v ∧ v ≤ 0x8000000000000000) :
    fitsWord (BitVec.ofInt 64 v) = decide (InRange v) := by
  rcases Int.lt_or_eq_of_le hv.2 with hlt | rfl
  · have hvalue : (BitVec.ofInt 64 v).toInt = v :=
      BitVec.toInt_ofInt_eq_self (by decide) (by omega) (by omega)
    rw [fitsWord, hvalue, ← Bool.decide_and, decide_eq_decide, InRange]
    omega
  · decide

theorem setWidth_ofInt (v : Int) : (BitVec.ofInt 64 v).setWidth 32 = BitVec.ofInt 32 v := by
  apply BitVec.eq_of_toNat_eq
  simp only [BitVec.toNat_setWidth, BitVec.toNat_ofInt]
  omega

/-- The low half of a doubleword that fits. -/
theorem word_of_ofInt (hv : -0x8000000000000000 ≤ v ∧ v ≤ 0x8000000000000000) :
    ((some (BitVec.ofInt 64 v)).filter fitsWord).map (BitVec.setWidth 32) =
      if InRange v then some (BitVec.ofInt 32 v) else none := by
  rw [Option.filter_some, fitsWord_ofInt hv]
  by_cases hrange : InRange v
  · simp [hrange, setWidth_ofInt]
  · simp [hrange]

/-- A number that has no doubleword is no word, and neither is its opposite. -/
theorem doubleword?_cases (v : Int) :
    (doubleword? v = some (BitVec.ofInt 64 v) ∧
      -0x8000000000000000 ≤ v ∧ v < 0x8000000000000000) ∨
      (doubleword? v = none ∧ ¬InRange v ∧ ¬InRange (-v)) := by
  rw [doubleword?]
  split
  case isTrue hv => exact .inl ⟨rfl, hv⟩
  case isFalse hv =>
    have hrange : ¬InRange v := by
      rw [InRange]
      omega
    have hopposite : ¬InRange (-v) := by
      rw [InRange]
      omega
    exact .inr ⟨rfl, hrange, hopposite⟩

/-- What becomes of the number of a body. -/
theorem word_of_doubleword? (v : Int) :
    ((doubleword? v).filter fitsWord).map (BitVec.setWidth 32) =
      if InRange v then some (BitVec.ofInt 32 v) else none := by
  rcases doubleword?_cases v with ⟨heq, hv⟩ | ⟨heq, hrange, -⟩
  · rw [heq, word_of_ofInt (by omega)]
  · rw [heq, if_neg hrange]
    rfl

/-- What becomes of the number of a body behind a minus sign. -/
theorem word_of_neg_doubleword? (v : Int) :
    (((doubleword? v).map (-·)).filter fitsWord).map (BitVec.setWidth 32) =
      if InRange (-v) then some (BitVec.ofInt 32 (-v)) else none := by
  rcases doubleword?_cases v with ⟨heq, hv⟩ | ⟨heq, -, hrange⟩
  · rw [heq, Option.map_some, ← BitVec.ofInt_neg, word_of_ofInt (by omega)]
  · rw [heq, if_neg hrange]
    rfl

/-! ## Tokens -/

theorem value?_of_ne_minus (h : ∀ rest, cs ≠ '-' :: rest) : value? cs = body? cs :=
  value?.eq_2 cs h

theorem body?_of_body (h : Body s (cs.filter (· != '_')) v) : body? cs = doubleword? v := by
  rw [body?, magnitude?_eq_some_iff.2 ⟨s, h⟩, Option.bind_some]

theorem body?_eq_none (h : ∀ s v, ¬Body s (cs.filter (· != '_')) v) : body? cs = none := by
  have hnone : magnitude? (cs.filter (· != '_')) = none := by
    refine Option.eq_none_iff_forall_ne_some.2 fun v hv => ?_
    obtain ⟨s, hs⟩ := magnitude?_eq_some_iff.1 hv
    exact h s v hs
  rw [body?, hnone, Option.bind_none]

/-- A token that spells a number spells it as a body, or else as a minus sign and a body. -/
theorem Spells.cases (h : Spells s cs v) :
    ((∀ rest, cs ≠ '-' :: rest) ∧ Body s (cs.filter (· != '_')) v) ∨
      ∃ s' rest, cs = '-' :: rest ∧ Body s' (rest.filter (· != '_')) (-v) := by
  cases h with
  | negative h => exact .inr ⟨s, _, rfl, by rwa [Int.neg_neg]⟩
  | plain h =>
    by_cases hminus : ∃ rest, cs = '-' :: rest
    · -- the minus sign in front of a decimal numeral is taken off like any other
      obtain ⟨rest, rfl⟩ := hminus
      exact .inr ⟨.absent, rest, rfl, h.of_minus⟩
    · exact .inl ⟨not_exists.1 hminus, h⟩

/-- A token spells one number. -/
theorem Spells.unique {s' : Sign} {v' : Int} (h : Spells s cs v) (h' : Spells s' cs v') :
    v = v' := by
  have hbody {s s' : Sign} {ds : List Char} {v v' : Int} (h : Body s ds v) (h' : Body s' ds v') :
      v = v' := by
    have hread := magnitude?_eq_some_iff.2 ⟨s, h⟩
    rw [magnitude?_eq_some_iff.2 ⟨s', h'⟩] at hread
    exact (Option.some.inj hread).symm
  rcases h.cases with ⟨hplain, hv⟩ | ⟨_, rest, hminus, hv⟩
  · rcases h'.cases with ⟨-, hv'⟩ | ⟨_, rest, hminus, -⟩
    · exact hbody hv hv'
    · exact absurd hminus (hplain rest)
  · rcases h'.cases with ⟨hplain, -⟩ | ⟨_, rest', hminus', hv'⟩
    · exact absurd hminus (hplain rest)
    · obtain ⟨-, rfl⟩ := List.cons.inj (hminus.symm.trans hminus')
      exact Int.neg_inj.1 (hbody hv hv')

/-- A token stands for the number that it spells, if that is a word. -/
theorem word?_of_spells (h : Spells s token.toList v) :
    word? token = if InRange v then some (BitVec.ofInt 32 v) else none := by
  rw [word?]
  rcases h.cases with ⟨hplain, h⟩ | ⟨_, rest, hminus, h⟩
  · rw [value?_of_ne_minus hplain, body?_of_body h, word_of_doubleword?]
  · rw [hminus, value?, body?_of_body h, word_of_neg_doubleword?, Int.neg_neg]

/-- A token that spells nothing stands for nothing. -/
theorem word?_eq_none (h : ∀ s v, ¬Spells s token.toList v) : word? token = none := by
  rw [word?]
  by_cases hminus : ∃ rest, token.toList = '-' :: rest
  · obtain ⟨rest, hrest⟩ := hminus
    rw [hrest] at h
    rw [hrest, value?, body?_eq_none fun s v hbody => h s (-v) (.negative hbody)]
    rfl
  · rw [value?_of_ne_minus (not_exists.1 hminus),
      body?_eq_none fun s v hbody => h s v (.plain hbody)]
    rfl

/-- A literal has one number, however many digits it has. It stands for that number modulo the size
of a word, read as a signed word, if the number is a signed or an unsigned word, and for nothing
otherwise. -/
theorem word?_exact (h : Means token v) :
    (∀ v', Means token v' → v' = v) ∧
      (word? token).map BitVec.toInt = if InRange v then some (v.bmod (2 ^ 32)) else none := by
  refine ⟨fun v' h' => Spells.unique h' h, ?_⟩
  rw [word?_of_spells h]
  split
  case isTrue => rw [Option.map_some, BitVec.toInt_ofInt]
  case isFalse => rfl

/-- The greatest unsigned word stands for the word that reads as minus one, underscores aside, and
the number below the least signed word for nothing. -/
theorem word?_exact_at_bounds :
    (Means "0xFFFF_FFFF" 0xFFFFFFFF ∧ (word? "0xFFFF_FFFF").map BitVec.toInt = some (-1)) ∧
      (Means "-0X8000_0001" (-0x80000001) ∧ (word? "-0X8000_0001").map BitVec.toInt = none) := by
  have hread {ds : List Char} {n : Nat} (h : natural? 16 ds = some n) :
      Signed .absent 16 ds n := ⟨ds, n, (natural?_eq_some_iff (by decide)).1 h, rfl, rfl⟩
  have hgreatest : Means "0xFFFF_FFFF" 0xFFFFFFFF :=
    .plain (.hexadecimal (.inl rfl) (hread (by decide)))
  have hbelow : Means "-0X8000_0001" (-0x80000001) :=
    .negative (.hexadecimal (.inr rfl) (hread (by decide)))
  exact ⟨⟨hgreatest, (word?_exact hgreatest).2⟩, hbelow, (word?_exact hbelow).2⟩

/-! ## Malformed tokens -/

/-- A token with a plus sign, or with a minus sign that is not its first character, is no
literal. -/
theorem malformed_of_sign (h : '+' ∈ token.toList ∨ '-' ∈ token.toList.tail) :
    Malformed token := by
  have hkept {c : Char} {ds : List Char} (hsign : c ∈ ['+', '-']) (hc : c ∈ ds) :
      c ∈ ds.filter (· != '_') := by
    refine List.mem_filter.2 ⟨hc, ?_⟩
    rcases List.mem_pair.1 hsign with rfl | rfl <;> rfl
  intro v hv
  rw [Means] at hv
  generalize token.toList = cs at h hv
  cases hv with
  | plain hbody =>
    rcases h with hplus | hminus
    · exact hbody.not_mem_sign (by decide) (hkept (by decide) hplus)
    · exact hbody.not_mem_sign (by decide) (hkept (by decide) (List.mem_of_mem_tail hminus))
  | negative hbody =>
    rcases h with hplus | hminus
    · exact hbody.not_mem_sign (by decide)
        (hkept (by decide) (List.mem_of_ne_of_mem (by decide) hplus))
    · exact hbody.not_mem_sign (by decide) (hkept (by decide) hminus)

/-- A malformed token stands for something exactly if it is misread. -/
theorem word?_eq_none_iff (h : Malformed token) : word? token = none ↔ ¬Misread token := by
  constructor
  · rintro hnone ⟨s, v, -, hv, hrange⟩
    rw [word?_of_spells hv, if_pos hrange] at hnone
    cases hnone
  · intro hread
    by_cases hspells : ∃ s v, Spells s token.toList v
    · obtain ⟨s, v, hv⟩ := hspells
      have hsign : s ≠ .absent := by
        rintro rfl
        exact h v hv
      rw [word?_of_spells hv, if_neg fun hrange => hread ⟨s, v, hsign, hv, hrange⟩]
    · exact word?_eq_none fun s v hv => hspells ⟨s, v, hv⟩

theorem require_eq_error_iff {α : Type} {e : OperandError} {o : Option α} :
    Instruction.require e o = .error e ↔ o = none := by
  cases o <;> simp [Instruction.require]

/-- A token at a position of a written instruction that is no symbol is refused, as a number and as
a destination, exactly if it stands for nothing. -/
theorem operand_eq_error_iff {m : String} {ops : List String} {index : Nat} {symbols : Symbols}
    (pc : Word) (hat : ops[index]? = some token) (hsymbol : symbols token = none) :
    ((Instruction.structured m ops).immediate index symbols = .error (.notAnImmediate token) ↔
        word? token = none) ∧
      ((Instruction.structured m ops).target index pc symbols = .error (.notAnImmediate token) ↔
        word? token = none) := by
  have htoken : Instruction.operandAt m ops index = .ok token := by
    rw [Instruction.operandAt, hat]
  constructor
  · rw [Instruction.immediate, htoken]
    change Instruction.require _ ((symbols token).or (word? token)) = _ ↔ _
    rw [hsymbol, Option.none_or, require_eq_error_iff]
  · rw [Instruction.target, htoken]
    change Instruction.require _ ((symbols token).or ((word? token).map (pc + ·))) = _ ↔ _
    rw [hsymbol, Option.none_or, require_eq_error_iff, Option.map_eq_none_iff]

/-- A malformed token is refused, as a number and as an operand, exactly if no sign stands between
the mark and the digits of a number in range. A token with such a sign stands for its number, both
signs counted. -/
theorem malformed_refused_iff (h : Malformed token) :
    (word? token = none ↔ ¬Misread token) ∧
      (∀ s v, Spells s token.toList v → InRange v → word? token = some (BitVec.ofInt 32 v)) ∧
      ∀ (m : String) (ops : List String) (index : Nat) (pc : Word) (symbols : Symbols),
        ops[index]? = some token → symbols token = none →
          ((Instruction.structured m ops).immediate index symbols =
              .error (.notAnImmediate token) ↔ ¬Misread token) ∧
            ((Instruction.structured m ops).target index pc symbols =
              .error (.notAnImmediate token) ↔ ¬Misread token) := by
  have hnone := word?_eq_none_iff h
  refine ⟨hnone, fun s v hv hrange => ?_, fun m ops index pc symbols hat hsymbol => ?_⟩
  · rw [word?_of_spells hv, if_pos hrange]
  · obtain ⟨himmediate, htarget⟩ := operand_eq_error_iff (m := m) pc hat hsymbol
    exact ⟨himmediate.trans hnone, htarget.trans hnone⟩

/-- A hexadecimal body with a minus sign behind its mark is taken for a number, and a decimal one
with a minus sign behind its digits is refused as a number to compute with. -/
theorem malformed_refused_of_minus :
    word? "0x-5" = some (-5) ∧
      (Instruction.structured "addi" ["a0", "a0", "5-"]).immediate 2 (fun _ => none) =
        .error (.notAnImmediate "5-") := by
  have hmisread : Spells .minus "0x-5".toList (-5) := by
    refine .plain (.hexadecimal (.inl rfl) ⟨['5'], 5, ?_, rfl, rfl⟩)
    exact denotes_toDigits (by decide) (by decide) 5
  have hrefused : ¬Misread "5-" := by
    have hword : word? "5-" = none := by decide
    exact (word?_eq_none_iff (malformed_of_sign (.inr (by decide)))).1 hword
  constructor
  · exact (malformed_refused_iff (malformed_of_sign (.inr (by decide)))).2.1 .minus (-5) hmisread
      (by decide)
  · exact ((malformed_refused_iff (malformed_of_sign (.inr (by decide)))).2.2 "addi"
      ["a0", "a0", "5-"] 2 0 (fun _ => none) rfl rfl).1.2 hrefused

/-- So a second sign is not always refused. -/
theorem not_malformed_refused : ¬∀ token, Malformed token → word? token = none := by
  intro hall
  have hnone := hall "--5" (malformed_of_sign (.inr (by decide)))
  exact absurd hnone (by decide)

end Riscv32.Literal
