import Riscv32.Proofs.Instruction.Place

/-!
# The base integer instructions by the manual

The instructions of RV32I that compute, branch or jump, on a machine of their own that has registers
and a program counter and nothing else. An instruction is read off a word by its seven-bit opcode
and the two minor opcodes. Its immediate is put together bit by bit from the places that the manual
gives, and its result is arithmetic on the signed or the unsigned reading of the operands. Only the
fields that are bits in a row are shared with the hart. The immediates that the hart decodes are
shown here to be these.

## Main definitions

* `Rv32i` — the instructions.
* `Rv32i.ofWord?` — the instruction of a word.
* `Rv32i.execute` — what an instruction does to the machine, or the misaligned target of a jump.

## Main statements

* `Rv32i.execute_x_zero`, register 0 stays zero.
* `Rv32i.execute_untaken`, a branch that is not taken cannot be misaligned.
* `Rv32i.gather_sourceB` and its like, the immediates of an instruction word.
-/
namespace Riscv32

/-- What two words are computed to. -/
inductive Rv32i.Operation
  | add | sub | sll | slt | sltu | xor | srl | sra | or | and
  deriving DecidableEq

/-- When a branch is taken. -/
inductive Rv32i.Condition
  | eq | ne | lt | ge | ltu | geu
  deriving DecidableEq

/-- An instruction that computes, branches or jumps. -/
inductive Rv32i
  | lui (rd : BitVec 5) (imm : Word)
  | auipc (rd : BitVec 5) (imm : Word)
  | jal (rd : BitVec 5) (offset : Word)
  | jalr (rd rs1 : BitVec 5) (offset : Word)
  | branch (c : Rv32i.Condition) (rs1 rs2 : BitVec 5) (offset : Word)
  | opImm (op : Rv32i.Operation) (rd rs1 : BitVec 5) (imm : Word)
  | op (op : Rv32i.Operation) (rd rs1 rs2 : BitVec 5)
  deriving DecidableEq

namespace Rv32i

/-! ## Words -/

/-- The word whose bit `i` is the bit `source i` of an instruction word, or zero. -/
def gather (source : Nat → Option Nat) (w : Word) : Word :=
  (BitVec.ofBoolListLE ((List.range 32).map fun i => (source i).any w.getLsbD)).setWidth 32

/-- Where the bits of the immediate of register-immediate instructions and `jalr` stand. -/
def sourceI (i : Nat) : Option Nat := if i ≤ 10 then some (i + 20) else some 31

/-- Where the bits of a branch offset stand. -/
def sourceB (i : Nat) : Option Nat :=
  if i = 0 then none
  else if i ≤ 4 then some (i + 7)
  else if i ≤ 10 then some (i + 20)
  else if i = 11 then some 7
  else some 31

/-- Where the bits of an upper immediate stand. -/
def sourceU (i : Nat) : Option Nat := if i ≤ 11 then none else some i

/-- Where the bits of a jump offset stand. -/
def sourceJ (i : Nat) : Option Nat :=
  if i = 0 then none
  else if i ≤ 10 then some (i + 20)
  else if i = 11 then some 20
  else if i ≤ 19 then some i
  else some 31

/-- The operation of a register-immediate instruction. Only shifts have the upper seven bits. -/
def Operation.ofImmediate? (f3 : BitVec 3) (f7 : BitVec 7) : Option Operation :=
  match f3 with
  | 0b000 => some add
  | 0b010 => some slt
  | 0b011 => some sltu
  | 0b100 => some xor
  | 0b110 => some or
  | 0b111 => some and
  | 0b001 => if f7 = 0b0000000 then some sll else none
  | _ => if f7 = 0b0000000 then some srl else if f7 = 0b0100000 then some sra else none

/-- The operation of a register-register instruction. -/
def Operation.ofRegister? (f3 : BitVec 3) (f7 : BitVec 7) : Option Operation :=
  match f7, f3 with
  | 0b0000000, 0b000 => some add
  | 0b0000000, 0b001 => some sll
  | 0b0000000, 0b010 => some slt
  | 0b0000000, 0b011 => some sltu
  | 0b0000000, 0b100 => some xor
  | 0b0000000, 0b101 => some srl
  | 0b0000000, 0b110 => some or
  | 0b0000000, 0b111 => some and
  | 0b0100000, 0b000 => some sub
  | 0b0100000, 0b101 => some sra
  | _, _ => none

/-- The condition of a branch. -/
def Condition.ofMinor? (f3 : BitVec 3) : Option Condition :=
  match f3 with
  | 0b000 => some eq
  | 0b001 => some ne
  | 0b100 => some lt
  | 0b101 => some ge
  | 0b110 => some ltu
  | 0b111 => some geu
  | _ => none

/-- The instruction of a word, if it is one of these. -/
def ofWord? (w : Word) : Option Rv32i :=
  match w.extractLsb' 0 7 with
  | 0b0110111 => some (lui w.rd (gather sourceU w))
  | 0b0010111 => some (auipc w.rd (gather sourceU w))
  | 0b1101111 => some (jal w.rd (gather sourceJ w))
  | 0b1100111 => if w.funct3 = 0 then some (jalr w.rd w.rs1 (gather sourceI w)) else none
  | 0b1100011 =>
    (Condition.ofMinor? w.funct3).map fun c => branch c w.rs1 w.rs2 (gather sourceB w)
  | 0b0010011 =>
    (Operation.ofImmediate? w.funct3 w.funct7).map fun o => opImm o w.rd w.rs1 (gather sourceI w)
  | 0b0110011 =>
    (Operation.ofRegister? w.funct3 w.funct7).map fun o => op o w.rd w.rs1 w.rs2
  | _ => none

/-- The names of these instructions. -/
def mnemonics : List String :=
  ["lui", "auipc", "jal", "jalr", "beq", "bne", "blt", "bge", "bltu", "bgeu", "addi", "slti",
    "sltiu", "xori", "ori", "andi", "slli", "srli", "srai", "add", "sub", "sll", "slt", "sltu",
    "xor", "srl", "sra", "or", "and"]

/-! ## Execution -/

/-- The power of two that a shift by the low five bits of a word multiplies or divides by. -/
def shiftFactor (y : Word) : Nat := Nat.pow 2 (y.toNat % 32)

/-- The result of an operation. The arithmetic shift divides the signed reading, rounding down. -/
def Operation.value (x y : Word) : Operation → Word
  | add => .ofInt 32 (x.toInt + y.toInt)
  | sub => .ofInt 32 (x.toInt - y.toInt)
  | sll => .ofNat 32 (x.toNat * shiftFactor y)
  | slt => if x.toInt < y.toInt then 1 else 0
  | sltu => if x.toNat < y.toNat then 1 else 0
  | xor => x ^^^ y
  | srl => .ofNat 32 (x.toNat / shiftFactor y)
  | sra => .ofInt 32 (x.toInt / shiftFactor y)
  | or => x ||| y
  | and => x &&& y

/-- Whether two words meet a condition. -/
def Condition.holds (x y : Word) : Condition → Bool
  | eq => decide (x = y)
  | ne => decide (x ≠ y)
  | lt => decide (x.toInt < y.toInt)
  | ge => decide (y.toInt ≤ x.toInt)
  | ltu => decide (x.toNat < y.toNat)
  | geu => decide (y.toNat ≤ x.toNat)

/-- The registers, of which register 0 is zero, and the address of the instruction. -/
structure State where
  x : BitVec 5 → Word
  pc : Word

/-- The registers after a write. -/
def State.write (s : State) (rd : BitVec 5) (v : Word) : BitVec 5 → Word :=
  fun r => if r = rd ∧ r ≠ 0 then v else s.x r

/-- The machine after an instruction that goes on with the next one. -/
def State.advance (s : State) (x : BitVec 5 → Word) : State := ⟨x, s.pc + 4⟩

/-- The machine after a jump, or the target if it is not a multiple of four. -/
def State.goto (target : Word) (x : BitVec 5 → Word) : Except Word State :=
  if target.toNat % 4 = 0 then .ok ⟨x, target⟩ else .error target

/-- What an instruction does to the machine, or the misaligned target that it jumps to. -/
def execute (s : State) : Rv32i → Except Word State
  | lui rd imm => .ok (s.advance (s.write rd imm))
  | auipc rd imm => .ok (s.advance (s.write rd (s.pc + imm)))
  | jal rd offset => State.goto (s.pc + offset) (s.write rd (s.pc + 4))
  | jalr rd rs1 offset =>
    State.goto (.ofNat 32 ((s.x rs1 + offset).toNat / 2 * 2)) (s.write rd (s.pc + 4))
  | branch c rs1 rs2 offset =>
    if c.holds (s.x rs1) (s.x rs2) then State.goto (s.pc + offset) s.x else .ok (s.advance s.x)
  | opImm o rd rs1 imm => .ok (s.advance (s.write rd (o.value (s.x rs1) imm)))
  | op o rd rs1 rs2 => .ok (s.advance (s.write rd (o.value (s.x rs1) (s.x rs2))))

variable {s s' : State} {i : Rv32i}

theorem State.write_zero (s : State) (rd : BitVec 5) (v : Word) : s.write rd v 0 = s.x 0 := by
  rw [State.write, if_neg]
  exact fun h => h.2 rfl

theorem State.x_of_goto {target : Word} {x : BitVec 5 → Word} (h : State.goto target x = .ok s) :
    s.x = x := by
  rw [State.goto] at h
  split at h
  · cases h
    rfl
  · cases h

/-- Register 0 is zero for good. -/
theorem execute_x_zero (hs : s.x 0 = 0) (h : i.execute s = .ok s') : s'.x 0 = 0 := by
  cases i with
  | jal | jalr => rw [State.x_of_goto h, State.write_zero, hs]
  | branch c rs1 rs2 offset =>
    rw [execute] at h
    split at h
    · rw [State.x_of_goto h, hs]
    · cases h
      exact hs
  | lui | auipc | opImm | op =>
    cases h
    exact (State.write_zero _ _ _).trans hs

/-- The target of a branch that is not taken does not matter. -/
theorem execute_untaken {c : Condition} {rs1 rs2 : BitVec 5}
    (h : c.holds (s.x rs1) (s.x rs2) = false) (offset : Word) :
    (branch c rs1 rs2 offset).execute s = .ok (s.advance s.x) := by
  rw [execute, h]
  rfl

/-! ## Immediates -/

theorem getLsbD_gather (source : Nat → Option Nat) (w : Word) (i : Nat) :
    (gather source w).getLsbD i = (decide (i < 32) && (source i).any w.getLsbD) := by
  rw [gather, BitVec.getLsbD_setWidth, BitVec.getLsbD_ofBoolListLE]
  by_cases hi : i < 32
  · simp [hi]
  · simp [hi]

theorem gather_sourceI (w : Word) : gather sourceI w = w.immI := by
  apply BitVec.eq_of_getLsbD_eq
  intro i hi
  rw [getLsbD_gather, sourceI, Word.immI, Word.getLsbD_signExtend_min _ hi,
    BitVec.getLsbD_extractLsb']
  obtain h | h : i ≤ 10 ∨ 10 < i := by omega
  all_goals
    simp (disch := omega) only [if_pos, if_neg, Option.any_some, decide_eq_true, Bool.true_and]
    exact congrArg w.getLsbD (by omega)

theorem gather_sourceU (w : Word) : gather sourceU w = w.immU <<< 12 := by
  apply BitVec.eq_of_getLsbD_eq
  intro i hi
  rw [getLsbD_gather, sourceU, Word.immU, BitVec.getLsbD_shiftLeft]
  obtain h | h : i ≤ 11 ∨ 11 < i := by omega
  · have hlow : i < 12 := by omega
    simp [h, hlow]
  · rw [Word.getLsbD_signExtend_min _ (by omega), BitVec.getLsbD_extractLsb']
    simp (disch := omega) only [if_neg, Option.any_some, decide_eq_true, decide_eq_false,
      Bool.true_and, Bool.not_false]
    exact congrArg w.getLsbD (by omega)

theorem gather_sourceB (w : Word) : gather sourceB w = w.immB := by
  apply BitVec.eq_of_getLsbD_eq
  intro i hi
  rw [getLsbD_gather, sourceB, Word.immB, Word.getLsbD_signExtend_min _ hi]
  simp only [BitVec.getLsbD_append, BitVec.getLsbD_extractLsb']
  -- one case for each field of the word that bits of the offset stand in
  obtain rfl | h | h | rfl | h :
      i = 0 ∨ (0 < i ∧ i ≤ 4) ∨ (4 < i ∧ i ≤ 10) ∨ i = 11 ∨ 11 < i := by
    omega
  · rfl
  all_goals
    simp (disch := omega) only [if_pos, if_neg, Option.any_some, decide_eq_true, Bool.true_and]
    exact congrArg w.getLsbD (by omega)

-- `beq zero, zero, -16`
example : gather sourceB 0xFE0008E3 = -16 := by decide

theorem gather_sourceJ (w : Word) : gather sourceJ w = w.immJ := by
  apply BitVec.eq_of_getLsbD_eq
  intro i hi
  rw [getLsbD_gather, sourceJ, Word.immJ, Word.getLsbD_signExtend_min _ hi]
  simp only [BitVec.getLsbD_append, BitVec.getLsbD_extractLsb']
  obtain rfl | h | rfl | h | h :
      i = 0 ∨ (0 < i ∧ i ≤ 10) ∨ i = 11 ∨ (11 < i ∧ i ≤ 19) ∨ 19 < i := by
    omega
  · rfl
  all_goals
    simp (disch := omega) only [if_pos, if_neg, Option.any_some, decide_eq_true, Bool.true_and]
    exact congrArg w.getLsbD (by omega)

end Rv32i

/-! ## Shift amounts and even targets -/

namespace Word

theorem shiftFactor_eq (y : Word) : Rv32i.shiftFactor y = Nat.pow 2 y.shiftAmount := by
  rw [shiftAmount, BitVec.extractLsb'_toNat, Nat.shiftRight_zero]
  rfl

theorem clearBitZero_eq (y : Word) : y.clearBitZero = .ofNat 32 (y.toNat / 2 * 2) := by
  have hdouble : y.toNat / 2 * 2 = y.toNat >>> 1 <<< 1 := by
    rw [Nat.shiftRight_eq_div_pow, Nat.shiftLeft_eq, Nat.pow_one]
  apply BitVec.eq_of_getLsbD_eq
  intro i hi
  rw [getLsbD_clearBitZero, BitVec.getLsbD_ofNat, hdouble, Nat.testBit_shiftLeft,
    Nat.testBit_shiftRight, BitVec.testBit_toNat]
  cases i with
  | zero => simp
  | succ i => simp [hi, Nat.add_comm]

/-- The low five bits of an immediate stand where the second source register does. -/
theorem shiftAmount_immI (w : Word) : shiftAmount (w.rs2.setWidth 32) = w.immI.shiftAmount := by
  have hrs2 : shiftAmount (w.rs2.setWidth 32) = w.toNat >>> 20 % 32 := by
    rw [shiftAmount, extractLsb'_setWidth _ (by decide), rs2, BitVec.extractLsb'_toNat]
  have himm : w.immI.shiftAmount = w.toNat >>> 20 % 4096 % 32 := by
    rw [shiftAmount, immI, extractLsb'_signExtend _ (by decide) (by decide),
      BitVec.extractLsb'_toNat, BitVec.extractLsb'_toNat, Nat.shiftRight_zero]
  rw [hrs2, himm]
  omega

end Word
end Riscv32
