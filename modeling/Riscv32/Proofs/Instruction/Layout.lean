import Mathlib.Tactic.Basic
import Riscv32.Instruction.Table
import Riscv32.Proofs.Instruction.Place

/-!
# The layout of rows

A row says by its selector which bits of a word pick the instruction, and by its format which bits
are operands. In every row of the tables the two go together: one selector for each format. So the
bits that pick the instruction and the operands lie apart, and a word that is built from a row and
operands shows all of them.

## Main definitions

* `Encoding.Layout` — the kinds of rows, one for each format.
* `Format.fit` — operands reduced to what the fields of a format can hold.

## Main statements

* `Encoding.layout_of_mem_table`, every row of the tables has a layout.
* `Encoding.accepts_encode`, a row accepts the words that it builds.
* `Encoding.operands_encode`, the operands of a word are those that it was built from.
-/
namespace Riscv32

/-- The kinds of rows. Each format comes with one way to pick the instruction. -/
inductive Encoding.Layout : Encoding → Prop
  | register (m o f3 f7 mask) : Layout ⟨m, o, f3, .funct7 f7, .r, mask⟩
  | unary (m o f3 f7 rs2 mask) : Layout ⟨m, o, f3, .funct7Rs2 f7 rs2, .rUnary, mask⟩
  | fused (m o format mask) : Layout ⟨m, o, none, .fmt format, .r4, mask⟩
  | immediate (m o f3 mask) : Layout ⟨m, o, some f3, .none, .i, mask⟩
  | load (m o f3 mask) : Layout ⟨m, o, some f3, .none, .load, mask⟩
  | shift (m o f3 f7 mask) : Layout ⟨m, o, some f3, .funct7 f7, .shift, mask⟩
  | store (m o f3 mask) : Layout ⟨m, o, some f3, .none, .s, mask⟩
  | branch (m o f3 mask) : Layout ⟨m, o, some f3, .none, .b, mask⟩
  | upper (m o mask) : Layout ⟨m, o, none, .none, .u, mask⟩
  | jump (m o mask) : Layout ⟨m, o, none, .none, .j, mask⟩
  | csr (m o f3 mask) : Layout ⟨m, o, some f3, .none, .csr, mask⟩
  | csrImmediate (m o f3 mask) : Layout ⟨m, o, some f3, .none, .csrImm, mask⟩
  | atomic (m o f3 f5 mask) : Layout ⟨m, o, some f3, .funct5 f5, .amo, mask⟩
  | reserved (m o f3 f5 rs2 mask) : Layout ⟨m, o, some f3, .funct5Rs2 f5 rs2, .lr, mask⟩
  | fence (m o f3 mask) : Layout ⟨m, o, some f3, .none, .fence, mask⟩
  | fixed (m o f3 word mask) (hlow : word.extractLsb' 0 2 = 3) (hopcode : word.opcode = o)
    (hminor : word.funct3 = f3) : Layout ⟨m, o, some f3, .exact word, .fixed, mask⟩

/-- Operands as a format can hold them: absent ones are zero, surplus ones are ignored, and each is
reduced to its field. -/
def Format.fit (ops : List Word) : Format → List Word
  | r | amo | shift => [ops.getD 0 0 % 32, ops.getD 1 0 % 32, ops.getD 2 0 % 32]
  | rUnary | lr => [ops.getD 0 0 % 32, ops.getD 1 0 % 32]
  | r4 => [ops.getD 0 0 % 32, ops.getD 1 0 % 32, ops.getD 2 0 % 32, ops.getD 3 0 % 32]
  | i | load | s => [ops.getD 0 0 % 32, ops.getD 1 0 % 32, (ops.getD 2 0).signExtendLow 12]
  | b => [ops.getD 0 0 % 32, ops.getD 1 0 % 32, ((ops.getD 2 0).signExtendLow 13).clearBitZero]
  | u => [ops.getD 0 0 % 32, (ops.getD 1 0).signExtendLow 20]
  | j => [ops.getD 0 0 % 32, ((ops.getD 1 0).signExtendLow 21).clearBitZero]
  | csr | csrImm => [ops.getD 0 0 % 32, ops.getD 1 0 % 4096, ops.getD 2 0 % 32]
  | fence | fixed => []

namespace Encoding

/-- Every row of the tables has a layout. -/
theorem layout_of_mem_table {e : Encoding} (he : e ∈ table) : e.Layout := by
  revert e
  simp only [table, integer, multiplication, atomic, singlePrecision, doublePrecision,
    controlRegister, privileged, List.forall_mem_append, List.forall_mem_cons, minor, upper,
    atomicRow, fused, rounded, roundedUnary, unrounded, unroundedUnary, fixedRow,
    List.not_mem_nil, false_imp_iff, implies_true, and_true]
  and_intros <;> constructor <;> rfl

/-- A minor opcode that a row leaves open is accepted whatever it is. -/
theorem all_beq_getD (funct3 : Option (BitVec 3)) (f3 : BitVec 3) :
    funct3.all (funct3.getD f3 == ·) := by
  cases funct3 <;> simp

/-- The two low bits of a built word are ones. -/
theorem low_encode {e : Encoding} (h : e.Layout) (ops : List Word) :
    (e.encode ops).extractLsb' 0 2 = 3 := by
  cases h with
  | fixed m o f3 word mask hlow hopcode hminor => exact hlow
  | _ =>
    -- Every other field lies above the two bits.
    simp [encode, Selector.bits, Format.operandBits, Format.placeRegister, Word.placeI, Word.placeS,
      Word.placeB, Word.placeU, Word.placeJ, Word.three_eq_place, BitVec.extractLsb'_or]

/-- A row accepts the words that it builds. -/
theorem accepts_encode {e : Encoding} (h : e.Layout) (ops : List Word) :
    e.accepts (e.encode ops) := by
  cases h with
  | fixed m o f3 word mask hlow hopcode hminor =>
    simp [accepts, encode, Selector.accepts, hopcode, hminor]
  | _ =>
    -- The operands lie apart from the opcode, the minor opcode and the field of the selector.
    simp [accepts, encode, Selector.accepts, Selector.bits, Format.operandBits, Format.openFunct3,
      Format.placeRegister, Word.opcode, Word.funct3, Word.funct7, Word.funct5, Word.fmt, Word.rs2,
      Word.placeI, Word.placeS, Word.placeB, Word.placeU, Word.placeJ, Word.three_eq_place,
      BitVec.extractLsb'_or, all_beq_getD]

/-- The operands of a built word are those that it was built from, as far as they fit. -/
theorem operands_encode {e : Encoding} (h : e.Layout) (ops : List Word) :
    e.operands (e.encode ops) = e.format.fit ops := by
  cases h <;>
    simp [operands, Format.operands, Format.fit, encode, Selector.bits, Format.operandBits,
      Format.openFunct3, Format.placeRegister, Word.rd, Word.rs1, Word.rs2, Word.rs3, Word.csr,
      Word.immI, Word.immS, Word.immB, Word.immU, Word.immJ, Word.placeI, Word.placeS, Word.placeB,
      Word.placeU, Word.placeJ, Word.three_eq_place, BitVec.extractLsb'_or,
      Word.setWidth_extractLsb', Word.signExtend_extractLsb', Word.signExtend_storeParts,
      Word.signExtend_branchParts, Word.signExtend_jumpParts]

end Encoding
end Riscv32
