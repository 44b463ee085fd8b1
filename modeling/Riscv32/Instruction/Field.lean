import Riscv32.Word

/-!
# Fields of an instruction word

Where an instruction word keeps its parts, and how an immediate that is scattered over the
word is put together and taken apart. Immediates are sign-extended to a word; a branch or jump
offset has no bit zero of its own, so that bit reads as zero and is not placed.
-/
namespace Riscv32.Word

/-- The major opcode, in bits 6 to 2. -/
def opcode (w : Word) : BitVec 5 := w.extractLsb' 2 5

/-- The destination register. -/
def rd (w : Word) : BitVec 5 := w.extractLsb' 7 5

/-- The first source register. -/
def rs1 (w : Word) : BitVec 5 := w.extractLsb' 15 5

/-- The second source register. -/
def rs2 (w : Word) : BitVec 5 := w.extractLsb' 20 5

/-- The third source register of a fused multiply-add. -/
def rs3 (w : Word) : BitVec 5 := w.extractLsb' 27 5

/-- The minor opcode, or a rounding mode. -/
def funct3 (w : Word) : BitVec 3 := w.extractLsb' 12 3

/-- The upper seven bits. -/
def funct7 (w : Word) : BitVec 7 := w.extractLsb' 25 7

/-- The upper five bits, which select an atomic operation. -/
def funct5 (w : Word) : BitVec 5 := w.extractLsb' 27 5

/-- The floating-point format, in bits 26 and 25. -/
def fmt (w : Word) : BitVec 2 := w.extractLsb' 25 2

/-- The address of a control register. -/
def csr (w : Word) : BitVec 12 := w.extractLsb' 20 12

/-- The low `bits` bits of a word, extended by their sign. -/
def signExtendLow (w : Word) (bits : Nat) : Word := (w.setWidth bits).signExtend 32

/-- The immediate of register-immediate instructions and loads. -/
def immI (w : Word) : Word := (w.extractLsb' 20 12).signExtend 32

/-- The immediate of stores. -/
def immS (w : Word) : Word := (w.extractLsb' 25 7 ++ w.extractLsb' 7 5).signExtend 32

/-- The offset of branches. -/
def immB (w : Word) : Word :=
  (w.extractLsb' 31 1 ++ w.extractLsb' 7 1 ++ w.extractLsb' 25 6 ++ w.extractLsb' 8 4
    ++ 0#1).signExtend 32

/-- The upper immediate, as a signed number of twenty bits. -/
def immU (w : Word) : Word := (w.extractLsb' 12 20).signExtend 32

/-- The offset of jumps. -/
def immJ (w : Word) : Word :=
  (w.extractLsb' 31 1 ++ w.extractLsb' 12 8 ++ w.extractLsb' 20 1 ++ w.extractLsb' 21 10
    ++ 0#1).signExtend 32

/-- A field moved to its place, with zeros around it. -/
def place {n : Nat} (lo : Nat) (field : BitVec n) : Word := field.setWidth 32 <<< lo

/-- The low twelve bits of `v` where `immI` reads them. -/
def placeI (v : Word) : Word := place 20 (v.extractLsb' 0 12)

/-- The low twelve bits of `v` where `immS` reads them. -/
def placeS (v : Word) : Word := place 25 (v.extractLsb' 5 7) ||| place 7 (v.extractLsb' 0 5)

/-- Bits 12 to 1 of `v` where `immB` reads them. -/
def placeB (v : Word) : Word :=
  place 31 (v.extractLsb' 12 1) ||| place 25 (v.extractLsb' 5 6) ||| place 8 (v.extractLsb' 1 4)
    ||| place 7 (v.extractLsb' 11 1)

/-- The low twenty bits of `v` where `immU` reads them. -/
def placeU (v : Word) : Word := place 12 (v.extractLsb' 0 20)

/-- Bits 20 to 1 of `v` where `immJ` reads them. -/
def placeJ (v : Word) : Word :=
  place 31 (v.extractLsb' 20 1) ||| place 21 (v.extractLsb' 1 10)
    ||| place 20 (v.extractLsb' 11 1) ||| place 12 (v.extractLsb' 12 8)

end Riscv32.Word
