import Mathlib.Data.List.Forall2
import Riscv32.Proofs.Instruction.Literal
import Riscv32.Proofs.Instruction.Unambiguous
import Riscv32.Proofs.Register.Name

/-!
# Decoded words as a programmer writes them

The format of a decoded word says what each operand is. From that every decoded word can be written
as a mnemonic with operand tokens: numbered names for registers, decimal numerals for all else, and
the name of the rounding mode where the row leaves it open. Read back by position and kind, the
tokens give the operands of the word, unless a symbol is spelt like one of the numerals.

## Main definitions

* `OperandKind`, `Format.kinds` — what the operands of a format are.
* `Encoding.isRounded` — the rows that leave the rounding mode open.
* `Decoded.written` — a decoded word as an instruction with tokens.
* `OperandKind.Reads` — an instruction gives a value at a position.

## Main statements

* `Literal.word?_toString`, a decimal numeral stands for its word.
* `Format.fits_operands`, the operands of a word suit their kinds.
* `OperandKind.Fits.reads_raw`, `OperandKind.Fits.reads_structured`, the two ways to an operand.
-/
namespace Riscv32

/-! ## Numerals -/

namespace Literal

open Numeral

theorem filter_underscore_toDigits (n : Nat) :
    (Nat.toDigits 10 n).filter (· != '_') = Nat.toDigits 10 n := by
  refine List.filter_eq_self.2 fun c hc => ?_
  have hdigit := Nat.isDigit_of_mem_toDigits (by decide) (by decide) hc
  rw [bne_iff_ne]
  rintro rfl
  exact absurd hdigit (by decide)

/-- The digits of a number are a body in base ten. -/
theorem body_toDigits (n : Nat) :
    Body .absent ((Nat.toDigits 10 n).filter (· != '_')) n := by
  rw [filter_underscore_toDigits]
  exact .decimal ⟨_, n, denotes_toDigits (by decide) (by decide) n, rfl, rfl⟩

/-- A decimal numeral is a literal of its number. -/
theorem means_toString (n : Int) : Means (toString n) n := by
  cases n with
  | ofNat n =>
    have hlist : (toString (Int.ofNat n)).toList = Nat.toDigits 10 n := Nat.toList_repr
    rw [Means, hlist]
    exact .plain (body_toDigits n)
  | negSucc n =>
    have hlist : (toString (Int.negSucc n)).toList = '-' :: Nat.toDigits 10 (n + 1) := by
      change ("-" ++ (n + 1).repr).toList = _
      rw [String.toList_append, Nat.toList_repr]
      rfl
    rw [Means, hlist]
    exact .negative (body_toDigits (n + 1))

/-- A decimal numeral of a signed word stands for the word. -/
theorem word?_toString (v : Word) : word? (toString v.toInt) = some v := by
  have hlow := BitVec.le_toInt v
  have hhigh := BitVec.toInt_lt (x := v)
  have hrange : InRange v.toInt := by
    rw [InRange]
    omega
  rw [word?_of_spells (means_toString v.toInt), if_pos hrange, BitVec.ofInt_toInt]

end Literal

/-! ## What operands are -/

/-- What an operand is. -/
inductive OperandKind
  /-- An integer register. -/
  | integer
  /-- A floating-point register. -/
  | float
  /-- A number to compute with. -/
  | immediate
  /-- The distance of a branch or jump. -/
  | target
  /-- A control register. -/
  | csr
  deriving DecidableEq

namespace OperandKind

/-- A register whose file the mask tells. -/
def register (mask index : Nat) : OperandKind := if mask.testBit index then float else integer

/-- Whether the operand is written as a number. -/
def isLiteral : OperandKind → Bool
  | integer | float => false
  | immediate | target | csr => true

/-- The token of an operand: a numbered name or a decimal numeral. -/
def token (v : Word) : OperandKind → String
  | integer => "x" ++ toString v.toNat
  | float => "f" ++ toString v.toNat
  | immediate | target | csr => toString v.toInt

/-- What an operand of the kind can be. -/
def Fits (v : Word) : OperandKind → Prop
  | integer | float => v.toNat < Register.count
  | immediate | target => True
  | csr => v.toNat < 0x1000

/-- The instruction gives the value for the operand at a position. -/
def Reads (symbols : Symbols) (inst : Instruction) (index : Nat) (v : Word) : OperandKind → Prop
  | integer => inst.register index = .ok v.toNat
  | float => inst.floatRegister index = .ok v.toNat
  | immediate => inst.immediate index symbols = .ok v
  | target => ∀ pc, inst.target index pc symbols = .ok (pc + v)
  | csr => inst.csr index = .ok v

end OperandKind

/-- What the operands of a format are, with a mask that tells the registers apart. -/
def Format.kinds (mask : Nat) : Format → List OperandKind
  | r | amo => [.register mask 0, .register mask 1, .register mask 2]
  | rUnary | lr => [.register mask 0, .register mask 1]
  | r4 => [.register mask 0, .register mask 1, .register mask 2, .register mask 3]
  | i | load | shift | s => [.register mask 0, .register mask 1, .immediate]
  | b => [.register mask 0, .register mask 1, .target]
  | u => [.register mask 0, .immediate]
  | j => [.register mask 0, .target]
  | csr => [.register mask 0, .csr, .register mask 2]
  | csrImm => [.register mask 0, .csr, .immediate]
  | fence | fixed => []

namespace Encoding

/-- What the operands of a row are. -/
def kinds (e : Encoding) : List OperandKind := e.format.kinds e.floatMask

/-- Whether the row leaves the rounding mode open. In the formats of the upper immediate and of
jumps those bits are part of the operand. -/
def isRounded (e : Encoding) : Bool := e.funct3.isNone && e.format != .u && e.format != .j

end Encoding

/-- The name of a rounding mode, none for the reserved ones. -/
def Literal.roundingName? (mode : BitVec 3) : Option String :=
  ["rne", "rtz", "rdn", "rup", "rmm"][mode.toNat]?.or
    (if mode = dynamicRounding then some "dyn" else none)

namespace Decoded

/-- What the operands are. -/
def kinds (d : Decoded) : List OperandKind := d.format.kinds d.floatMask

/-- Whether the row of the word leaves the rounding mode open. -/
def isRounded (d : Decoded) : Bool := (Encoding.ofMnemonic? d.mnemonic).any (·.isRounded)

/-- The tokens of the operands. -/
def tokens (d : Decoded) : List String := List.zipWith (fun k v => k.token v) d.kinds d.operands

/-- The tokens that are numbers. -/
def literals (d : Decoded) : List String :=
  ((d.kinds.zip d.operands).filter (·.1.isLiteral)).map fun (k, v) => k.token v

/-- The word as an instruction with tokens, the rounding mode last. -/
def written (d : Decoded) : Instruction :=
  .structured d.mnemonic
    (d.tokens ++ if d.isRounded then (Literal.roundingName? d.encoding.funct3).toList else [])

end Decoded

/-! ## Reading operands back -/

/-- Numbered names name their registers. -/
theorem Register.index?_numbered {i : Nat} (h : i < count) :
    integerIndex? ("x" ++ toString i) = some i ∧ floatIndex? ("f" ++ toString i) = some i := by
  have hinteger : IsNumberedName 'x' ("x" ++ toString i) i := ⟨h, String.toList_append⟩
  have hfloat : IsNumberedName 'f' ("f" ++ toString i) i := ⟨h, String.toList_append⟩
  exact ⟨integerIndex?_eq_some_iff.2 (.inl (.inr (.inr hinteger))),
    floatIndex?_eq_some_iff.2 (.inl (.inr hfloat))⟩

/-- No control register has a number for a name. -/
theorem Csr.address?_eq_none {token : String} {v : Word} (h : Literal.word? token = some v) :
    address? token = none := by
  have hnames : ∀ n ∈ names, Literal.word? n.1 = none := by decide +kernel
  rw [address?, Option.map_eq_none_iff, List.find?_eq_none]
  intro n hn heq
  rw [← beq_iff_eq.1 heq, hnames n hn] at h
  cases h

theorem Literal.roundingMode?_roundingName? {mode : BitVec 3} (h : mode ≠ 5 ∧ mode ≠ 6) :
    ∃ name, roundingName? mode = some name ∧ roundingMode? name = some mode := by
  revert mode
  decide +kernel

theorem Csr.and_mask {v : Word} (h : v.toNat < 0x1000) : v &&& 0xFFF = v := by
  refine BitVec.eq_of_toNat_eq ?_
  rw [BitVec.toNat_and]
  exact Nat.and_two_pow_sub_one_of_lt_two_pow (n := 12) h

/-- The operands of a word suit their kinds: a register field has five bits and the field of a
control register twelve. -/
theorem Format.fits_operands (f : Format) (mask : Nat) (w : Word) :
    List.Forall₂ (fun k v => OperandKind.Fits v k) (f.kinds mask) (f.operands w) := by
  have hregister : ∀ (field : BitVec 5) (index : Nat),
      OperandKind.Fits (field.setWidth 32) (.register mask index) := by
    intro field index
    have hlt : (field.setWidth 32).toNat < Register.count := by
      rw [BitVec.toNat_setWidth, Nat.mod_eq_of_lt (by omega)]
      exact field.isLt
    unfold OperandKind.register
    split <;> exact hlt
  have himmediate : ∀ v, OperandKind.Fits v .immediate := fun _ => trivial
  have htarget : ∀ v, OperandKind.Fits v .target := fun _ => trivial
  have hcsr : OperandKind.Fits (w.csr.setWidth 32) .csr := by
    change (w.csr.setWidth 32).toNat < 0x1000
    rw [BitVec.toNat_setWidth, Nat.mod_eq_of_lt (by omega)]
    exact w.csr.isLt
  cases f with
  | r | amo => exact .cons (hregister _ 0) (.cons (hregister _ 1) (.cons (hregister _ 2) .nil))
  | rUnary | lr => exact .cons (hregister _ 0) (.cons (hregister _ 1) .nil)
  | r4 =>
    exact .cons (hregister _ 0) (.cons (hregister _ 1) (.cons (hregister _ 2)
      (.cons (hregister _ 3) .nil)))
  | i | load | s | shift =>
    exact .cons (hregister _ 0) (.cons (hregister _ 1) (.cons (himmediate _) .nil))
  | b => exact .cons (hregister _ 0) (.cons (hregister _ 1) (.cons (htarget _) .nil))
  | u => exact .cons (hregister _ 0) (.cons (himmediate _) .nil)
  | j => exact .cons (hregister _ 0) (.cons (htarget _) .nil)
  | csr => exact .cons (hregister _ 0) (.cons hcsr (.cons (hregister _ 2) .nil))
  | csrImm => exact .cons (hregister _ 0) (.cons hcsr (.cons (himmediate _) .nil))
  | fence | fixed => exact .nil

namespace OperandKind

variable {k : OperandKind} {v : Word} {index : Nat} {symbols : Symbols}

/-- A decoded word gives its operands whatever symbols there are. -/
theorem Fits.reads_raw (hfits : k.Fits v) {d : Decoded} (hv : d.operands[index]? = some v)
    (symbols : Symbols) : k.Reads symbols (.raw d) index v := by
  have hat : Instruction.operandAt d.mnemonic d.operands index = .ok v := by
    rw [Instruction.operandAt, hv]
  cases k with
  | integer =>
    have hfield : Instruction.fieldIndex? v = some v.toNat := if_pos hfits
    simp only [Reads, Instruction.register, hat, bind, Except.bind, hfield, Instruction.require]
  | float =>
    have hfield : Instruction.fieldIndex? v = some v.toNat := if_pos hfits
    simp only [Reads, Instruction.floatRegister, hat, bind, Except.bind, hfield,
      Instruction.require]
  | immediate => exact hat
  | target =>
    intro pc
    simp only [Instruction.target, hat, bind, Except.bind, pure, Except.pure]
  | csr =>
    simp only [Reads, Instruction.csr, hat, bind, Except.bind, pure, Except.pure,
      Csr.and_mask hfits]

/-- A token gives the operand that it was written for, unless it is the name of a symbol. -/
theorem Fits.reads_structured (hfits : k.Fits v) {mnemonic : String} {ops : List String}
    (ht : ops[index]? = some (k.token v))
    (hsymbols : k.isLiteral = true → symbols (k.token v) = none) :
    k.Reads symbols (.structured mnemonic ops) index v := by
  have hat : Instruction.operandAt mnemonic ops index = .ok (k.token v) := by
    rw [Instruction.operandAt, ht]
  cases k with
  | integer =>
    simp only [Reads, Instruction.register, hat, bind, Except.bind, token,
      (Register.index?_numbered hfits).1, Instruction.require]
  | float =>
    simp only [Reads, Instruction.floatRegister, hat, bind, Except.bind, token,
      (Register.index?_numbered hfits).2, Instruction.require]
  | immediate =>
    simp only [Reads, Instruction.immediate, hat, bind, Except.bind, hsymbols rfl]
    simp only [token, Literal.word?_toString, Option.none_or, Instruction.require]
  | target =>
    intro pc
    simp only [Instruction.target, hat, bind, Except.bind, hsymbols rfl]
    simp only [token, Literal.word?_toString, Option.none_or, Option.map_some, Instruction.require]
  | csr =>
    have hword := Literal.word?_toString v
    simp only [Reads, Instruction.csr, hat, bind, Except.bind, token, Instruction.csrOfToken?,
      Csr.address?_eq_none hword, hword, Option.none_or, Option.map_some, Instruction.require,
      Csr.and_mask hfits]

end OperandKind

/-! ## Instructions that agree -/

namespace Instruction

/-- Two instructions that give the same value for each operand, and the same rounding mode behind
them if they have one. -/
structure Agree (symbols : Symbols) (kinds : List OperandKind) (rounded : Bool)
    (i j : Instruction) : Prop where
  mnemonic : i.mnemonic = j.mnemonic
  operand : ∀ (index : Nat) (k : OperandKind), kinds[index]? = some k →
    ∃ v, k.Reads symbols i index v ∧ k.Reads symbols j index v
  rounding : rounded = true → ∃ mode, i.roundingMode kinds.length = .ok mode ∧
    j.roundingMode kinds.length = .ok mode

end Instruction

theorem Encoding.ofMnemonic?_of_mem_table {e : Encoding} (he : e ∈ table) :
    ofMnemonic? e.mnemonic = some e := by
  revert e
  decide +kernel

namespace Decoded

variable {w : Word} {d : Decoded}

/-- Each operand of a decoded word has a kind and suits it. -/
theorem fits_of_decode (hd : decode w = .ok d) :
    List.Forall₂ (fun k v => OperandKind.Fits v k) d.kinds d.operands := by
  obtain ⟨-, e, -, -, rfl⟩ := exists_row_of_decode hd
  exact e.format.fits_operands e.floatMask w

theorem exists_operand_of_kind (hd : decode w = .ok d) {index : Nat} {k : OperandKind}
    (hk : d.kinds[index]? = some k) : ∃ v, d.operands[index]? = some v ∧ k.Fits v := by
  have hfits := fits_of_decode hd
  obtain ⟨hindex, rfl⟩ := List.getElem?_eq_some_iff.1 hk
  have hindex' : index < d.operands.length := by
    rw [← hfits.length_eq]
    exact hindex
  exact ⟨d.operands[index], List.getElem?_eq_getElem hindex', hfits.get hindex hindex'⟩

/-- A decoded word has an operand at every position that its format has. -/
theorem agree_self (hd : decode w = .ok d) (symbols : Symbols) :
    Instruction.Agree symbols d.kinds d.isRounded (.raw d) (.raw d) where
  mnemonic := rfl
  operand := by
    intro index k hk
    obtain ⟨v, hv, hfits⟩ := exists_operand_of_kind hd hk
    exact ⟨v, hfits.reads_raw hv symbols, hfits.reads_raw hv symbols⟩
  rounding _ := ⟨d.encoding.funct3, rfl, rfl⟩

theorem length_tokens (hd : decode w = .ok d) : d.tokens.length = d.kinds.length := by
  rw [tokens, List.length_zipWith, ← (fits_of_decode hd).length_eq, Nat.min_self]

/-- A decoded word agrees with its written form, if its rounding mode has a name and no symbol is
spelt like one of the numbers. -/
theorem agree_written (hd : decode w = .ok d)
    (hmode : d.isRounded = true → d.encoding.funct3 ≠ 5 ∧ d.encoding.funct3 ≠ 6)
    {symbols : Symbols} (hsymbols : ∀ t ∈ d.literals, symbols t = none) :
    Instruction.Agree symbols d.kinds d.isRounded (.raw d) d.written where
  mnemonic := rfl
  operand := by
    intro index k hk
    obtain ⟨v, hv, hfits⟩ := exists_operand_of_kind hd hk
    refine ⟨v, hfits.reads_raw hv symbols, hfits.reads_structured ?_ fun hliteral => ?_⟩
    · have htoken : d.tokens[index]? = some (k.token v) := by
        rw [tokens, List.getElem?_zipWith, hk, hv]
      rw [List.getElem?_append_left (List.getElem?_eq_some_iff.1 htoken).1, htoken]
    · refine hsymbols _ (List.mem_map.2 ⟨(k, v), List.mem_filter.2 ⟨?_, hliteral⟩, rfl⟩)
      refine List.mem_of_getElem? (i := index) ?_
      rw [List.getElem?_zip_eq_some]
      exact ⟨hk, hv⟩
  rounding := by
    intro hrounded
    obtain ⟨name, hname, hread⟩ := Literal.roundingMode?_roundingName? (hmode hrounded)
    have hlast : (d.tokens ++ [name])[d.kinds.length]? = some name := by
      rw [← length_tokens hd, List.getElem?_concat_length]
    refine ⟨d.encoding.funct3, rfl, ?_⟩
    rw [written, if_pos hrounded, hname, Option.toList_some, Instruction.roundingMode, hlast]
    simp only [hread, Instruction.require]

end Decoded

end Riscv32
