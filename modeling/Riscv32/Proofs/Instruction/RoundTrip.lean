import Mathlib.Tactic.Basic
import Riscv32.Proofs.Instruction.Layout
import Riscv32.Proofs.Instruction.Unambiguous

/-!
# Words and operands

A word that is built from a row and operands decodes to them. In the other direction, a word that
is built again from what it decodes to is the same word but for the bits that its row ignores. For
this every bit of a word is accounted for: it picks the instruction, or belongs to an operand, or
is ignored.

## Main definitions

* `Selector.span`, `Format.span` — the bits that a selector fixes and that a format reads.
* `Encoding.canonical` — a word with the ignored bits as a row writes them.

## Main statements

* `decode_encode`, a built word decodes to its row and to the operands as far as they fit.
* `Encoding.encode_operands`, a word built again from its own operands is the canonical one.
* `encode_of_decode`, the same for what the word decodes to.
-/
namespace Riscv32

/-! ## From operands to words and back -/

/-- A built word decodes to its row and to the operands as far as they fit. -/
theorem decode_encode {e : Encoding} (he : e ∈ Encoding.table) (ops : List Word) :
    decode (e.encode ops)
      = .ok ⟨e.mnemonic, e.format.fit ops, e.encode ops, e.format, e.floatMask⟩ := by
  have hlayout := Encoding.layout_of_mem_table he
  have hdecode := decode_of_accepts he (Encoding.accepts_encode hlayout ops)
    (Encoding.low_encode hlayout ops)
  rw [hdecode, Encoding.decoded, Encoding.operands_encode hlayout]

/-- No register number, however large, and no offset turns a branch into another instruction. The
surplus operand is ignored, and the offset loses its lowest bit and its upper ones. -/
theorem decode_encode_beq :
    Encoding.minor "beq" 0b11000 0b000 .b ∈ Encoding.table ∧
      decode ((Encoding.minor "beq" 0b11000 0b000 .b).encode [33, -1, 0xFFFFF001, 7])
        = .ok ⟨"beq", [1, 31, -4096], 0x81F08063, .b, 0⟩ := by
  have hmem : Encoding.minor "beq" 0b11000 0b000 .b ∈ Encoding.table := by decide +kernel
  exact ⟨hmem, decode_encode hmem [33, -1, 0xFFFFF001, 7]⟩

/-! ## The bits of a word -/

/-- The bits that a selector fixes. -/
def Selector.span : Selector → Word
  | none => 0
  | funct7 _ => Word.span 25 7
  | funct7Rs2 _ _ => Word.span 25 7 ||| Word.span 20 5
  | funct5 _ => Word.span 27 5
  | funct5Rs2 _ _ => Word.span 27 5 ||| Word.span 20 5
  | fmt _ => Word.span 25 2
  | exact _ => BitVec.allOnes 32

/-- The bits that the operands of a format are read from. -/
def Format.span : Format → Word
  | r | amo | shift => Word.span 7 5 ||| Word.span 15 5 ||| Word.span 20 5
  | rUnary | lr => Word.span 7 5 ||| Word.span 15 5
  | r4 => Word.span 7 5 ||| Word.span 15 5 ||| Word.span 20 5 ||| Word.span 27 5
  | i | load => Word.span 7 5 ||| Word.span 15 5 ||| Word.span 20 12
  | s => Word.span 20 5 ||| Word.span 15 5 ||| (Word.span 25 7 ||| Word.span 7 5)
  | b => Word.span 15 5 ||| Word.span 20 5
      ||| (Word.span 31 1 ||| Word.span 25 6 ||| Word.span 8 4 ||| Word.span 7 1)
  | u => Word.span 7 5 ||| Word.span 12 20
  | j => Word.span 7 5
      ||| (Word.span 31 1 ||| Word.span 21 10 ||| Word.span 20 1 ||| Word.span 12 8)
  | csr | csrImm => Word.span 7 5 ||| Word.span 20 12 ||| Word.span 15 5
  | fence | fixed => 0

/-- What a selector writes is the part of an accepted word that it fixes. -/
theorem Selector.bits_of_accepts {s : Selector} {w : Word} (h : s.accepts w) :
    s.bits = w &&& s.span := by
  cases s with
  | none => simp [bits, span]
  | funct7 f7 =>
    obtain rfl : w.funct7 = f7 := by simpa [accepts] using h
    exact Word.place_extractLsb' w 25 7
  | funct7Rs2 f7 rs2 =>
    obtain ⟨rfl, rfl⟩ : w.funct7 = f7 ∧ w.rs2 = rs2 := by simpa [accepts] using h
    simp only [bits, span, Word.funct7, Word.rs2, Word.place_extractLsb',
      BitVec.and_or_distrib_left]
  | funct5 f5 =>
    obtain rfl : w.funct5 = f5 := by simpa [accepts] using h
    exact Word.place_extractLsb' w 27 5
  | funct5Rs2 f5 rs2 =>
    obtain ⟨rfl, rfl⟩ : w.funct5 = f5 ∧ w.rs2 = rs2 := by simpa [accepts] using h
    simp only [bits, span, Word.funct5, Word.rs2, Word.place_extractLsb',
      BitVec.and_or_distrib_left]
  | fmt format =>
    obtain rfl : w.fmt = format := by simpa [accepts] using h
    exact Word.place_extractLsb' w 25 2
  | exact word =>
    obtain rfl : w = word := by simpa [accepts] using h
    exact (BitVec.and_allOnes).symm

/-- The operands of a word, placed again, are the part of the word that they were read from. -/
theorem Format.operandBits_operands (f : Format) (w : Word) :
    f.operandBits (f.operands w) = w &&& f.span := by
  cases f <;>
    simp [operandBits, operands, span, placeRegister, Word.rd, Word.rs1, Word.rs2, Word.rs3,
      Word.csr, Word.extractLsb'_setWidth, Word.place_extractLsb', BitVec.and_or_distrib_left,
      Word.placeI_immI, Word.placeS_immS, Word.placeB_immB, Word.placeU_immU, Word.placeJ_immJ]

namespace Encoding

variable {e : Encoding} {w : Word}

/-- The bits of a word that pick the instruction or belong to an operand, but for the minor
opcode. -/
def span (e : Encoding) : Word := Word.span 0 7 ||| e.selector.span ||| e.format.span

theorem encode_of_not_exact (hexact : ∀ word, e.selector ≠ .exact word) (ops : List Word) :
    e.encode ops = 3 ||| .place 2 e.opcode ||| .place 12 (e.funct3.getD e.format.openFunct3)
      ||| e.selector.bits ||| e.format.operandBits ops := by
  rw [encode]
  split
  next word hselector => exact absurd hselector (hexact word)
  next => rfl

/-- A word that is built again from its own operands keeps the bits that its row accounts for. -/
theorem encode_operands_eq (hlow : w.extractLsb' 0 2 = 3) (hw : e.accepts w)
    (hexact : ∀ word, e.selector ≠ .exact word) :
    e.encode (e.operands w)
      = w &&& e.span ||| .place 12 (e.funct3.getD e.format.openFunct3) := by
  obtain ⟨hopcode, -, hselector⟩ := accepts_iff.1 hw
  have hthree : (3 : Word) = w &&& Word.span 0 2 := by
    rw [← Word.place_extractLsb', hlow]
    decide
  have hhead : 3 ||| Word.place 2 e.opcode = w &&& Word.span 0 7 := by
    rw [← hopcode, Word.opcode, Word.place_extractLsb', hthree, ← BitVec.and_or_distrib_left]
    rfl
  rw [encode_of_not_exact hexact, operands, hhead, Selector.bits_of_accepts hselector,
    Format.operandBits_operands, span, BitVec.and_or_distrib_left, BitVec.and_or_distrib_left]
  ac_rfl

/-- The minor opcode of a row that fixes it is accounted for as well. -/
theorem encode_operands_of_minor {f3 : BitVec 3} (hf3 : e.funct3 = some f3)
    (hlow : w.extractLsb' 0 2 = 3) (hw : e.accepts w)
    (hexact : ∀ word, e.selector ≠ .exact word) :
    e.encode (e.operands w) = w &&& (e.span ||| Word.span 12 3) := by
  have hminor : w.funct3 = f3 := (accepts_iff.1 hw).2.1 f3 hf3
  rw [encode_operands_eq hlow hw hexact, hf3, Option.getD_some, ← hminor, Word.funct3,
    Word.place_extractLsb', ← BitVec.and_or_distrib_left]

/-- A word with the ignored bits as its row writes them: an open rounding mode is dynamic, atomic
instructions have no ordering bits, and a fence has nothing but its opcodes. -/
def canonical (e : Encoding) (w : Word) : Word :=
  match e.format with
  | .fence => w &&& (Word.span 0 7 ||| Word.span 12 3)
  | .amo | .lr => w &&& ~~~(Word.span 25 2)
  | .u | .j => w
  | _ => if e.funct3.isNone then w ||| Word.span 12 3 else w

/-- A word that is built again from its own operands is the canonical one. -/
theorem encode_operands (h : e.Layout) (hlow : w.extractLsb' 0 2 = 3) (hw : e.accepts w) :
    e.encode (e.operands w) = e.canonical w := by
  cases h with
  | fixed m o f3 word mask =>
    have hword : w = word := by simpa [Selector.accepts] using (accepts_iff.1 hw).2.2
    exact hword.symm
  | immediate | load | shift | store | branch | csr | csrImmediate =>
    rw [encode_operands_of_minor rfl hlow hw (by simp)]
    simp only [span, Selector.span, Format.span]
    exact Word.and_full (by decide) w
  | atomic | reserved | fence =>
    rw [encode_operands_of_minor rfl hlow hw (by simp)]
    simp only [span, Selector.span, Format.span]
    exact congrArg (w &&& ·) (by decide)
  | upper | jump =>
    rw [encode_operands_eq hlow hw (by simp)]
    simp only [span, Selector.span, Format.span, Format.openFunct3, Option.getD_none]
    have hopen : Word.place 12 (0 : BitVec 3) = 0#32 := Word.place_zero 12 3
    rw [hopen, BitVec.or_zero]
    exact Word.and_full (by decide) w
  | fused =>
    rw [encode_operands_eq hlow hw (by simp)]
    simp only [span, Selector.span, Format.span, Format.openFunct3, Option.getD_none]
    exact Word.and_or_full (by decide) w
  | register m o f3 | unary m o f3 =>
    cases f3 with
    | none =>
      rw [encode_operands_eq hlow hw (by simp)]
      simp only [span, Selector.span, Format.span, Format.openFunct3, Option.getD_none]
      exact Word.and_or_full (by decide) w
    | some f3 =>
      rw [encode_operands_of_minor rfl hlow hw (by simp)]
      simp only [span, Selector.span, Format.span]
      exact Word.and_full (by decide) w

/-- The operands lie apart from the ignored bits. -/
theorem operands_canonical (h : e.Layout) (w : Word) :
    e.operands (e.canonical w) = e.operands w := by
  cases h with
  | register m o f3 | unary m o f3 =>
    cases f3 <;>
      simp (disch := decide) [canonical, operands, Format.operands, Word.rd, Word.rs1, Word.rs2,
        Word.extractLsb'_or_of_eq_zero]
  | fused =>
    simp (disch := decide) [canonical, operands, Format.operands, Word.rd, Word.rs1, Word.rs2,
      Word.rs3, Word.extractLsb'_or_of_eq_zero]
  | atomic | reserved =>
    simp (disch := decide) [canonical, operands, Format.operands, Word.rd, Word.rs1, Word.rs2,
      Word.extractLsb'_and_of_eq_allOnes]
  | fence => rfl
  | _ => simp [canonical]

/-- A row without ignored bits leaves nothing to make canonical. -/
theorem canonical_eq_self (hminor : e.funct3 = none → e.format = .u ∨ e.format = .j)
    (hformat : e.format ∉ [.amo, .lr, .fence]) (w : Word) : e.canonical w = w := by
  obtain ⟨m, o, f3, selector, format, mask⟩ := e
  cases format <;> cases f3 <;> simp_all [canonical]

end Encoding

/-- A word that is built again from what it decodes to is the canonical one, and it decodes to the
same instruction. -/
theorem encode_of_decode {e : Encoding} (he : e ∈ Encoding.table) {w : Word}
    (hlow : w.extractLsb' 0 2 = 3) (hw : e.accepts w) :
    decode w = .ok ⟨e.mnemonic, e.operands w, w, e.format, e.floatMask⟩ ∧
      e.encode (e.operands w) = e.canonical w ∧
      ((e.funct3 = none → e.format = .u ∨ e.format = .j) → e.format ∉ [.amo, .lr, .fence] →
        e.encode (e.operands w) = w) ∧
      decode (e.encode (e.operands w))
        = .ok ⟨e.mnemonic, e.operands w, e.canonical w, e.format, e.floatMask⟩ := by
  have hlayout := Encoding.layout_of_mem_table he
  have hencode := Encoding.encode_operands hlayout hlow hw
  have haccepts := Encoding.accepts_encode hlayout (e.operands w)
  have hlow' := Encoding.low_encode hlayout (e.operands w)
  rw [hencode] at haccepts hlow' ⊢
  refine ⟨decode_of_accepts he hw hlow, rfl, ?_, ?_⟩
  · intro hminor hformat
    exact Encoding.canonical_eq_self hminor hformat w
  · rw [decode_of_accepts he haccepts hlow', Encoding.decoded,
      Encoding.operands_canonical hlayout]

/-- An atomic addition with both ordering bits loses them. -/
theorem encode_of_decode_amoadd :
    Encoding.atomicRow "amoadd.w" 0b00000 ∈ Encoding.table ∧
      decode 0x0620A1AF = .ok ⟨"amoadd.w", [3, 1, 2], 0x0620A1AF, .amo, 0⟩ ∧
      (Encoding.atomicRow "amoadd.w" 0b00000).encode [3, 1, 2] = 0x0020A1AF ∧
      decode 0x0020A1AF = .ok ⟨"amoadd.w", [3, 1, 2], 0x0020A1AF, .amo, 0⟩ := by
  have hmem : Encoding.atomicRow "amoadd.w" 0b00000 ∈ Encoding.table := by decide +kernel
  obtain ⟨hdecode, hencode, -, hagain⟩ :=
    encode_of_decode hmem (w := 0x0620A1AF) (by decide) (by decide)
  rw [hencode] at hagain
  exact ⟨hmem, hdecode, hencode, hagain⟩

end Riscv32
