import Mathlib.Data.List.Forall2
import Riscv32.Proofs.Hart.Trail
import Riscv32.Proofs.Instruction.Reference

/-!
# Conformance of the base integer instructions

The handlers of the instructions that compute, branch or jump do to a hart what the reference does
to a machine of registers and a program counter, and beside the registers and the program counter
they change nothing. The handlers come in families with a parameter. So the word operations and the
conditions are compared with those of the reference first, then the effect of each family on a
decoded word is given in one equation, and a row is set beside its handler by the member of the
family that it is.

## Main definitions

* `RegisterFile.Updated` — registers that hold given words and are as before in all else.
* `Hart.Conforms` — a handler does to a hart what the reference does.
* `Exec.Implements` — a handler conforms for every word of a row.

## Main statements

* `Rv32i.Operation.compute_eq` and `Rv32i.Condition.taken_eq`, operations on words.
* `Exec.implements_branch` and its like, one for each family of handlers.
* `conforms_of_decode`, every decoded instruction of the reference.
-/
namespace Riscv32

/-! ## Word operations -/

namespace Rv32i

/-- The function that the hart has for an operation. -/
def Operation.compute : Operation → Word → Word → Word
  | add => (· + ·)
  | sub => (· - ·)
  | sll => Exec.shiftLeft
  | slt => Exec.lessSigned
  | sltu => Exec.lessUnsigned
  | xor => (· ^^^ ·)
  | srl => Exec.shiftRight
  | sra => Exec.shiftRightSigned
  | or => (· ||| ·)
  | and => (· &&& ·)

/-- The function that the hart has for a condition. -/
def Condition.taken : Condition → Word → Word → Bool
  | eq => (· == ·)
  | ne => (· != ·)
  | lt => BitVec.slt
  | ge => fun x y => !x.slt y
  | ltu => BitVec.ult
  | geu => fun x y => !x.ult y

theorem Operation.compute_eq (o : Operation) (x y : Word) : o.compute x y = o.value x y := by
  cases o with
  | add =>
    rw [value, BitVec.ofInt_add, BitVec.ofInt_toInt, BitVec.ofInt_toInt]
    rfl
  | sub =>
    rw [value, Int.sub_eq_add_neg, BitVec.ofInt_add, BitVec.ofInt_neg, BitVec.ofInt_toInt,
      BitVec.ofInt_toInt, ← BitVec.sub_eq_add_neg]
    rfl
  | sll =>
    apply BitVec.eq_of_toNat_eq
    rw [value, compute, Exec.shiftLeft, Word.shiftFactor_eq, BitVec.toNat_shiftLeft,
      Nat.shiftLeft_eq, BitVec.toNat_ofNat]
    rfl
  | slt =>
    rw [value, compute, Exec.lessSigned, Word.ofBool, BitVec.slt_eq_decide]
    simp only [decide_eq_true_eq]
  | sltu =>
    rw [value, compute, Exec.lessUnsigned, Word.ofBool, BitVec.ult_eq_decide]
    simp only [decide_eq_true_eq]
  | srl =>
    apply BitVec.eq_of_toNat_eq
    have hfits := Nat.lt_of_le_of_lt (Nat.div_le_self x.toNat (shiftFactor y)) x.isLt
    rw [value, compute, Exec.shiftRight, BitVec.toNat_ushiftRight, Nat.shiftRight_eq_div_pow,
      BitVec.toNat_ofNat, Nat.mod_eq_of_lt hfits, Word.shiftFactor_eq]
    rfl
  | sra =>
    rw [value, compute, Exec.shiftRightSigned, Word.shiftFactor_eq, BitVec.sshiftRight,
      Int.shiftRight_eq_div_pow]
    rfl
  | xor | or | and => rfl

theorem Condition.taken_eq (c : Condition) (x y : Word) : c.taken x y = c.holds x y := by
  cases c with
  | eq | lt | ltu => rfl
  | ne => exact (decide_not (p := x = y)).symm
  | ge =>
    change (!x.slt y) = decide (y.toInt ≤ x.toInt)
    rw [BitVec.slt_eq_decide, ← decide_not]
    simp only [Int.not_lt]
  | geu =>
    change (!x.ult y) = decide (y.toNat ≤ x.toNat)
    rw [BitVec.ult_eq_decide, ← decide_not]
    simp only [Nat.not_lt]

end Rv32i

/-! ## Registers -/

/-- The registers `f'` hold `x`. All else in them is as in `f`, except for the markers. -/
structure RegisterFile.Updated (f : RegisterFile) (x : BitVec 5 → Word) (f' : RegisterFile) :
    Prop where
  peek : ∀ r : BitVec 5, f'.peek r.toNat = x r
  hidden : f'.integers.cells[0]? = f.integers.cells[0]?
  floats : f'.floats = f.floats
  unlimited : f'.unlimited = f.unlimited
  symbolic : f'.symbolic = f.symbolic

theorem IntegerRegisters.writable_iff (r : BitVec 5) : writable r.toNat = true ↔ r ≠ 0 := by
  have hlt : r.toNat < Register.count := r.isLt
  have hzero : r = 0 ↔ r.toNat = 0 := BitVec.toNat_inj.symm
  simp only [writable, hlt, hzero, decide_true, Bool.and_true, decide_eq_true_eq, ne_eq]
  omega

namespace RegisterFile.Updated

variable {f f' : RegisterFile} {x : BitVec 5 → Word}

theorem refl (f : RegisterFile) : f.Updated (fun r => f.peek r.toNat) f :=
  ⟨fun _ => rfl, rfl, rfl, rfl, rfl⟩

theorem markRead (h : f.Updated x f') (i : Nat) : f.Updated x (f'.markRead i) :=
  ⟨h.peek, h.hidden, h.floats, h.unlimited, h.symbolic⟩

/-- A write to register 0 is discarded, and so it is in the reference. -/
theorem write (h : f.Updated x f') (rd : BitVec 5) (v : Word) :
    f.Updated (fun r => if r = rd ∧ r ≠ 0 then v else x r) (f'.write rd.toNat v) := by
  by_cases hrd : rd = 0
  · have hdiscarded : f'.write rd.toNat v = f' :=
      if_neg (mt (IntegerRegisters.writable_iff rd).1 (not_not_intro hrd))
    have hsame : (fun r => if r = rd ∧ r ≠ 0 then v else x r) = x := by
      funext r
      rw [if_neg]
      rintro ⟨rfl, hr⟩
      exact hr hrd
    rw [hdiscarded, hsame]
    exact h
  · have hwritable := (IntegerRegisters.writable_iff rd).2 hrd
    have hpos : rd.toNat ≠ 0 := fun hzero => hrd (BitVec.eq_of_toNat_eq hzero)
    rw [RegisterFile.write, if_pos hwritable]
    refine ⟨fun r => ?_, ?_, h.floats, h.unlimited, h.symbolic⟩
    · change (f'.integers.write rd.toNat v).read r.toNat = _
      rw [IntegerRegisters.read_write]
      by_cases hr : r = rd
      · subst hr
        rw [if_pos ⟨hwritable, rfl⟩, if_pos ⟨rfl, hrd⟩]
      · have hne : rd.toNat ≠ r.toNat := fun heq => hr (BitVec.eq_of_toNat_eq heq.symm)
        rw [if_neg fun h => hne h.2, if_neg fun h => hr h.1]
        exact h.peek r
    · rw [← h.hidden, IntegerRegisters.write, if_pos hwritable]
      simp [hpos]

end RegisterFile.Updated

/-! ## Operands -/

namespace Instruction

variable {d : Decoded} {index : Nat} {v : Word} {r : BitVec 5}

theorem operandAt_raw (hv : d.operands[index]? = some v) :
    operandAt d.mnemonic d.operands index = .ok v := by
  rw [operandAt, hv]

theorem register_raw (hr : d.operands[index]? = some (r.setWidth 32)) :
    (raw d).register index = .ok r.toNat := by
  have hfield : fieldIndex? (r.setWidth 32) = some r.toNat := by
    have hlt : r.toNat < Register.count := r.isLt
    have hnat : (r.setWidth 32).toNat = r.toNat := by
      rw [BitVec.toNat_setWidth]
      omega
    rw [fieldIndex?, hnat, if_pos hlt]
  rw [register, operandAt_raw hr]
  change require _ (fieldIndex? (r.setWidth 32)) = _
  rw [hfield]
  rfl

theorem immediate_raw (hv : d.operands[index]? = some v) (symbols : Symbols) :
    (raw d).immediate index symbols = .ok v := operandAt_raw hv

theorem target_raw (hv : d.operands[index]? = some v) (pc : Word) (symbols : Symbols) :
    (raw d).target index pc symbols = .ok (pc + v) := by
  rw [target, operandAt_raw hv]
  rfl

end Instruction

/-! ## Handlers -/

namespace Exec

variable {α : Type} {d : Decoded} {ops : List Word} {rd rs1 rs2 : BitVec 5} {imm offset v : Word}

theorem register_bind (hops : d.operands = ops) (index : Nat)
    (hr : ops[index]? = some (rd.setWidth 32)) (f : Nat → Exec α) (h : Hart) :
    ((liftM ((Instruction.raw d).register index) : Exec Nat) >>= f) h = f rd.toNat h :=
  bind_of_ok (operand_of_ok (Instruction.register_raw (hops ▸ hr)) h)

theorem immediate_bind (hops : d.operands = ops) (index : Nat) (hv : ops[index]? = some v)
    (f : Word → Exec α) (h : Hart) : (immediate (.raw d) index >>= f) h = f v h :=
  bind_of_ok (operand_of_ok (Instruction.immediate_raw (hops ▸ hv) h.memory.symbol?) h)

theorem target_bind (hops : d.operands = ops) (index : Nat) (hv : ops[index]? = some v)
    (f : Word → Exec α) (h : Hart) :
    (target (.raw d) index >>= f) h = f (h.instructionPc + v) h :=
  bind_of_ok
    (operand_of_ok (Instruction.target_raw (hops ▸ hv) h.instructionPc h.memory.symbol?) h)

/-- A jump goes to a multiple of four and traps on any other target. -/
theorem jump_eq (t : Word) (h : Hart) : jump t h =
    if t.toNat % 4 = 0 then .ok () { h with pc := t }
    else .error (.trap (.instructionAddressMisaligned t)) h := by
  have hget : (get : Exec Hart) h = .ok h h := rfl
  rw [jump, bind_of_ok hget]
  by_cases hmod : t.toNat % 4 = 0
  · have hjump : h.jump t = .ok { h with pc := t } := if_pos ((Word.isAligned_iff t).2 hmod)
    rw [if_pos hmod, hjump]
    rfl
  · have hjump : h.jump t = .error (.instructionAddressMisaligned t) :=
      if_neg (mt (Word.isAligned_iff t).1 hmod)
    rw [if_neg hmod, hjump]
    rfl

/-- A jump that misses its target does not write its link. -/
theorem jump_bind_writeX (t v : Word) (i : Nat) (h : Hart) :
    (jump t >>= fun _ => writeX i v) h =
      if t.toNat % 4 = 0 then .ok () { h with pc := t, regs := h.regs.write i v }
      else .error (.trap (.instructionAddressMisaligned t)) h := by
  by_cases hmod : t.toNat % 4 = 0
  · rw [if_pos hmod, bind_of_ok ((jump_eq t h).trans (if_pos hmod))]
    rfl
  · rw [if_neg hmod, bind_of_error ((jump_eq t h).trans (if_neg hmod))]

theorem registerImmediate_raw (f : Word → Word → Word)
    (hops : d.operands = [rd.setWidth 32, rs1.setWidth 32, imm]) (h : Hart) :
    registerImmediate f (.raw d) h =
      .ok () { h with
        regs := (h.regs.markRead rs1.toNat).write rd.toNat (f (h.regs.peek rs1.toNat) imm) } := by
  rw [registerImmediate, register_bind hops 0 rfl, register_bind hops 1 rfl, readX_bind,
    immediate_bind hops 2 rfl]
  rfl

theorem registerRegister_raw (f : Word → Word → Word)
    (hops : d.operands = [rd.setWidth 32, rs1.setWidth 32, rs2.setWidth 32]) (h : Hart) :
    registerRegister f (.raw d) h =
      .ok () { h with
        regs := ((h.regs.markRead rs1.toNat).markRead rs2.toNat).write rd.toNat
          (f (h.regs.peek rs1.toNat) (h.regs.peek rs2.toNat)) } := by
  rw [registerRegister, register_bind hops 0 rfl, register_bind hops 1 rfl, readX_bind,
    register_bind hops 2 rfl, readX_bind]
  rfl

theorem loadUpper_raw (hops : d.operands = [rd.setWidth 32, imm]) (h : Hart) :
    loadUpper (.raw d) h = .ok () { h with regs := h.regs.write rd.toNat (imm <<< 12) } := by
  rw [loadUpper, register_bind hops 0 rfl, immediate_bind hops 1 rfl]
  rfl

theorem addUpperToPc_raw (hops : d.operands = [rd.setWidth 32, imm]) (h : Hart) :
    addUpperToPc (.raw d) h =
      .ok () { h with regs := h.regs.write rd.toNat (h.instructionPc + imm <<< 12) } := by
  rw [addUpperToPc, register_bind hops 0 rfl, immediate_bind hops 1 rfl]
  rfl

theorem jumpAndLink_raw (hops : d.operands = [rd.setWidth 32, offset]) (h : Hart) :
    jumpAndLink (.raw d) h =
      (jump (h.instructionPc + offset) >>= fun _ => writeX rd.toNat h.pc) h := by
  rw [jumpAndLink, register_bind hops 0 rfl, target_bind hops 1 rfl]
  rfl

theorem jumpAndLinkRegister_raw
    (hops : d.operands = [rd.setWidth 32, rs1.setWidth 32, offset]) (h : Hart) :
    jumpAndLinkRegister (.raw d) h =
      (jump (h.regs.peek rs1.toNat + offset).clearBitZero >>= fun _ => writeX rd.toNat h.pc)
        { h with regs := h.regs.markRead rs1.toNat } := by
  rw [jumpAndLinkRegister, register_bind hops 0 rfl, register_bind hops 1 rfl, readX_bind,
    immediate_bind hops 2 rfl]
  rfl

theorem branch_raw (taken : Word → Word → Bool)
    (hops : d.operands = [rs1.setWidth 32, rs2.setWidth 32, offset]) (h : Hart) :
    branch taken (.raw d) h =
      (if taken (h.regs.peek rs1.toNat) (h.regs.peek rs2.toNat) then
        jump (h.instructionPc + offset) else pure ())
        { h with regs := (h.regs.markRead rs1.toNat).markRead rs2.toNat } := by
  rw [branch, register_bind hops 0 rfl, readX_bind, register_bind hops 1 rfl, readX_bind]
  change (if taken (h.regs.peek rs1.toNat) (h.regs.peek rs2.toNat) then
    target (.raw d) 2 >>= jump else pure () : Exec Unit) _ = _
  by_cases htaken : taken (h.regs.peek rs1.toNat) (h.regs.peek rs2.toNat) = true
  · rw [if_pos htaken, if_pos htaken, target_bind hops 2 rfl]
  · rw [if_neg htaken, if_neg htaken]

end Exec

/-! ## Conformance -/

namespace Hart

variable {h : Hart} {x : BitVec 5 → Word} {regs : RegisterFile}

/-- The registers and the instruction address of a hart. -/
def reference (h : Hart) : Rv32i.State := ⟨fun r => h.regs.peek r.toNat, h.instructionPc⟩

@[simp] theorem reference_x (h : Hart) (r : BitVec 5) : h.reference.x r = h.regs.peek r.toNat := rfl

@[simp] theorem reference_pc (h : Hart) : h.reference.pc = h.instructionPc := rfl

/-- What a handler does to a hart is what the reference does, and nothing else changes but the
markers of the registers. -/
inductive Conforms (h : Hart) :
    Except Word Rv32i.State → EStateM.Result ExecError Hart Unit → Prop
  | ok {s : Rv32i.State} {regs : RegisterFile} : h.regs.Updated s.x regs →
    Conforms h (.ok s) (.ok () { h with regs, pc := s.pc })
  | misaligned (t : Word) (lastRead : Option Nat) :
    Conforms h (.error t) (.error (.trap (.instructionAddressMisaligned t))
      { h with regs := { h.regs with lastRead } })

theorem Conforms.advance (hpc : h.pc = h.instructionPc + 4) (hregs : h.regs.Updated x regs) :
    h.Conforms (.ok (h.reference.advance x)) (.ok () { h with regs }) := by
  have hnext : ({ h with regs } : Hart) = { h with regs, pc := h.instructionPc + 4 } := by
    rw [← hpc]
  rw [hnext]
  exact .ok hregs

theorem Conforms.goto {t : Word} {lastRead : Option Nat} (hregs : h.regs.Updated x regs) :
    h.Conforms (Rv32i.State.goto t x)
      (if t.toNat % 4 = 0 then .ok () { h with pc := t, regs }
      else .error (.trap (.instructionAddressMisaligned t))
        { h with regs := { h.regs with lastRead } }) := by
  rw [Rv32i.State.goto]
  by_cases hmod : t.toNat % 4 = 0
  · rw [if_pos hmod, if_pos hmod]
    exact .ok hregs
  · rw [if_neg hmod, if_neg hmod]
    exact .misaligned t lastRead

end Hart

namespace Exec

open Rv32i

variable {m : String} {f3 : BitVec 3} {f7 : BitVec 7} {o : Operation}

/-- The handler does with every word of the row what the reference does with it. -/
def Implements (e : Encoding) (handler : Handler) : Prop :=
  ∀ w : Word, w.extractLsb' 0 2 = 3 → e.accepts w → ∃ i, ofWord? w = some i ∧
    ∀ h : Hart, h.pc = h.instructionPc + 4 →
      h.Conforms (i.execute h.reference) (handler (.raw (e.decoded w)) h)

/-- The reference looks at seven bits for the opcode, of which the rows leave out the two low
ones. -/
theorem implements_of_opcode {e : Encoding} {handler : Handler} (opcode : BitVec 5)
    (code : BitVec 7) (hopcode : e.opcode = opcode) (hcode : opcode ++ 3#2 = code)
    (hword : ∀ w : Word, w.extractLsb' 0 7 = code → (∀ m ∈ e.funct3, w.funct3 = m) →
      e.selector.accepts w → ∃ i, ofWord? w = some i ∧
        ∀ h : Hart, h.pc = h.instructionPc + 4 →
          h.Conforms (i.execute h.reference) (handler (.raw (e.decoded w)) h)) :
    Implements e handler := by
  intro w hlow hw
  obtain ⟨hrow, hminor, hselector⟩ := Encoding.accepts_iff.1 hw
  have hsplit : w.extractLsb' 0 (5 + 2) = w.opcode ++ w.extractLsb' 0 2 :=
    (BitVec.extractLsb'_append_extractLsb'_eq_extractLsb' rfl).symm
  refine hword w ?_ hminor hselector
  change w.extractLsb' 0 (5 + 2) = code
  rw [hsplit, hlow, hrow, hopcode, ← hcode]
  rfl

theorem implements_loadUpper : Implements ⟨"lui", 0b01101, none, .none, .u, 0⟩ loadUpper := by
  refine implements_of_opcode 0b01101 0b0110111 rfl (by decide) fun w hcode _ _ =>
    ⟨.lui w.rd (gather sourceU w), ?_, fun h hpc => ?_⟩
  · rw [ofWord?, hcode]
    rfl
  · rw [loadUpper_raw rfl, ← gather_sourceU]
    exact .advance hpc (.write (.refl _) _ _)

theorem implements_addUpperToPc :
    Implements ⟨"auipc", 0b00101, none, .none, .u, 0⟩ addUpperToPc := by
  refine implements_of_opcode 0b00101 0b0010111 rfl (by decide) fun w hcode _ _ =>
    ⟨.auipc w.rd (gather sourceU w), ?_, fun h hpc => ?_⟩
  · rw [ofWord?, hcode]
    rfl
  · rw [addUpperToPc_raw rfl, ← gather_sourceU]
    exact .advance hpc (.write (.refl _) _ _)

theorem implements_jumpAndLink :
    Implements ⟨"jal", 0b11011, none, .none, .j, 0⟩ jumpAndLink := by
  refine implements_of_opcode 0b11011 0b1101111 rfl (by decide) fun w hcode _ _ =>
    ⟨.jal w.rd (gather sourceJ w), ?_, fun h hpc => ?_⟩
  · rw [ofWord?, hcode]
    rfl
  · rw [jumpAndLink_raw rfl, ← gather_sourceJ, jump_bind_writeX, execute, Hart.reference_pc,
      ← hpc]
    exact .goto (.write (.refl _) _ _)

theorem implements_jumpAndLinkRegister :
    Implements (.minor "jalr" 0b11001 0b000 .i) jumpAndLinkRegister := by
  refine implements_of_opcode 0b11001 0b1100111 rfl (by decide) fun w hcode hf3 _ =>
    ⟨.jalr w.rd w.rs1 (gather sourceI w), ?_, fun h hpc => ?_⟩
  · rw [ofWord?, hcode]
    exact if_pos (hf3 _ rfl)
  · -- the register is read before the link is written, even if the two are one
    rw [jumpAndLinkRegister_raw rfl, ← gather_sourceI, jump_bind_writeX,
      Word.clearBitZero_eq, execute, Hart.reference_pc, ← hpc]
    exact .goto (.write (.markRead (.refl _) _) _ _)

theorem implements_branch {c : Condition} (hminor : Condition.ofMinor? f3 = some c) :
    Implements (.minor m 0b11000 f3 .b) (branch c.taken) := by
  refine implements_of_opcode 0b11000 0b1100011 rfl (by decide) fun w hcode hf3 _ =>
    ⟨.branch c w.rs1 w.rs2 (gather sourceB w), ?_, fun h hpc => ?_⟩
  · rw [ofWord?, hcode, hf3 f3 rfl, hminor]
    rfl
  · have hregs := ((RegisterFile.Updated.refl h.regs).markRead w.rs1.toNat).markRead w.rs2.toNat
    -- a target that is not jumped to is not computed, so it cannot trap
    rw [branch_raw _ rfl, ← gather_sourceB, Condition.taken_eq, execute, Hart.reference_x,
      Hart.reference_x]
    by_cases htaken : c.holds (h.regs.peek w.rs1.toNat) (h.regs.peek w.rs2.toNat) = true
    · rw [if_pos htaken, if_pos htaken, jump_eq]
      exact .goto hregs
    · rw [if_neg htaken, if_neg htaken]
      exact .advance hpc hregs

theorem implements_registerImmediate (hminor : ∀ f7, Operation.ofImmediate? f3 f7 = some o) :
    Implements (.minor m 0b00100 f3 .i) (registerImmediate o.compute) := by
  refine implements_of_opcode 0b00100 0b0010011 rfl (by decide) fun w hcode hf3 _ =>
    ⟨.opImm o w.rd w.rs1 (gather sourceI w), ?_, fun h hpc => ?_⟩
  · rw [ofWord?, hcode, hf3 f3 rfl, hminor]
    rfl
  · rw [registerImmediate_raw _ rfl, ← gather_sourceI, Operation.compute_eq]
    exact .advance hpc (.write (.markRead (.refl _) _) _ _)

/-- A shift amount is the second source field, and so are the low five bits of the immediate. -/
theorem implements_shift (hminor : Operation.ofImmediate? f3 f7 = some o)
    (hshift : o = .sll ∨ o = .srl ∨ o = .sra) :
    Implements (.upper m 0b00100 f3 f7 .shift) (registerImmediate o.compute) := by
  refine implements_of_opcode 0b00100 0b0010011 rfl (by decide) fun w hcode hf3 hf7 =>
    ⟨.opImm o w.rd w.rs1 (gather sourceI w), ?_, fun h hpc => ?_⟩
  · rw [ofWord?, hcode, hf3 f3 rfl, eq_of_beq hf7, hminor]
    rfl
  · have hvalue (x : Word) : o.compute x (w.rs2.setWidth 32) = o.compute x w.immI := by
      rcases hshift with rfl | rfl | rfl <;>
        simp only [Operation.compute, shiftLeft, shiftRight, shiftRightSigned,
          Word.shiftAmount_immI]
    rw [registerImmediate_raw _ rfl, hvalue, ← gather_sourceI, Operation.compute_eq]
    exact .advance hpc (.write (.markRead (.refl _) _) _ _)

theorem implements_registerRegister (hminor : Operation.ofRegister? f3 f7 = some o) :
    Implements (.upper m 0b01100 f3 f7 .r) (registerRegister o.compute) := by
  refine implements_of_opcode 0b01100 0b0110011 rfl (by decide) fun w hcode hf3 hf7 =>
    ⟨.op o w.rd w.rs1 w.rs2, ?_, fun h hpc => ?_⟩
  · rw [ofWord?, hcode, hf3 f3 rfl, eq_of_beq hf7, hminor]
    rfl
  · rw [registerRegister_raw _ rfl, Operation.compute_eq]
    exact .advance hpc (.write (.markRead (.markRead (.refl _) _) _) _ _)

/-- The handler is registered for the row, and implements it if the row is one of the reference. -/
def Fits (e : Encoding) (r : String × Handler) : Prop :=
  e.mnemonic = r.1 ∧ (e.mnemonic ∈ mnemonics → Implements e r.2)

theorem Implements.fits {e : Encoding} {handler : Handler} (h : Implements e handler) :
    Fits e (e.mnemonic, handler) := ⟨rfl, fun _ => h⟩

theorem fits_of_not_mem {e : Encoding} (handler : Handler) (h : e.mnemonic ∉ mnemonics) :
    Fits e (e.mnemonic, handler) := ⟨rfl, fun hmem => absurd hmem h⟩

/-- The rows of the base integer instructions and their handlers stand in the same order. -/
theorem fits_integer :
    List.Forall₂ Fits Encoding.integer (integerHandlers.take Encoding.integer.length) :=
  .cons implements_loadUpper.fits <| .cons implements_addUpperToPc.fits <|
  .cons implements_jumpAndLink.fits <| .cons implements_jumpAndLinkRegister.fits <|
  .cons (implements_branch (c := .eq) rfl).fits <|
  .cons (implements_branch (c := .ne) rfl).fits <|
  .cons (implements_branch (c := .lt) rfl).fits <|
  .cons (implements_branch (c := .ge) rfl).fits <|
  .cons (implements_branch (c := .ltu) rfl).fits <|
  .cons (implements_branch (c := .geu) rfl).fits <|
  .cons (fits_of_not_mem _ (by decide)) <| .cons (fits_of_not_mem _ (by decide)) <|
  .cons (fits_of_not_mem _ (by decide)) <| .cons (fits_of_not_mem _ (by decide)) <|
  .cons (fits_of_not_mem _ (by decide)) <| .cons (fits_of_not_mem _ (by decide)) <|
  .cons (fits_of_not_mem _ (by decide)) <| .cons (fits_of_not_mem _ (by decide)) <|
  .cons (implements_registerImmediate (o := .add) fun _ => rfl).fits <|
  .cons (implements_registerImmediate (o := .slt) fun _ => rfl).fits <|
  .cons (implements_registerImmediate (o := .sltu) fun _ => rfl).fits <|
  .cons (implements_registerImmediate (o := .xor) fun _ => rfl).fits <|
  .cons (implements_registerImmediate (o := .or) fun _ => rfl).fits <|
  .cons (implements_registerImmediate (o := .and) fun _ => rfl).fits <|
  .cons (implements_shift (o := .sll) rfl (.inl rfl)).fits <|
  .cons (implements_shift (o := .srl) rfl (.inr (.inl rfl))).fits <|
  .cons (implements_shift (o := .sra) rfl (.inr (.inr rfl))).fits <|
  .cons (implements_registerRegister (o := .add) rfl).fits <|
  .cons (implements_registerRegister (o := .sub) rfl).fits <|
  .cons (implements_registerRegister (o := .sll) rfl).fits <|
  .cons (implements_registerRegister (o := .slt) rfl).fits <|
  .cons (implements_registerRegister (o := .sltu) rfl).fits <|
  .cons (implements_registerRegister (o := .xor) rfl).fits <|
  .cons (implements_registerRegister (o := .srl) rfl).fits <|
  .cons (implements_registerRegister (o := .sra) rfl).fits <|
  .cons (implements_registerRegister (o := .or) rfl).fits <|
  .cons (implements_registerRegister (o := .and) rfl).fits <|
  .cons (fits_of_not_mem _ (by decide)) <| .cons (fits_of_not_mem _ (by decide)) .nil

theorem exists_fits {rows : List Encoding} {handlers : List (String × Handler)} {e : Encoding}
    (h : List.Forall₂ Fits rows handlers) (he : e ∈ rows) : ∃ r ∈ handlers, Fits e r := by
  induction h with
  | nil => cases he
  | cons hfits _ ih =>
    rcases List.mem_cons.1 he with rfl | he
    · exact ⟨_, List.mem_cons_self, hfits⟩
    · obtain ⟨r, hr, hfits⟩ := ih he
      exact ⟨r, List.mem_cons_of_mem _ hr, hfits⟩

/-- A row that is named as in the reference is a row of the base integer instructions, and its
handler implements it. -/
theorem exists_implements {e : Encoding} (he : e ∈ Encoding.table)
    (hname : e.mnemonic ∈ mnemonics) : ∃ handler, (e.mnemonic, handler) ∈ integerHandlers ∧
      Implements e handler := by
  -- no other set has a row of such a name
  have hinteger : ∀ e ∈ Encoding.table, e.mnemonic ∈ mnemonics → e ∈ Encoding.integer := by
    decide +kernel
  obtain ⟨⟨_, handler⟩, hr, rfl, himplements⟩ := exists_fits fits_integer (hinteger e he hname)
  exact ⟨handler, List.mem_of_mem_take hr, himplements hname⟩

end Exec

/-- **The base integer instructions conform to the manual.** Every word that decodes to an
instruction of RV32I that computes, branches or jumps is an instruction of the reference, and the
handler that the standard table has for it does to every hart what the reference does: it writes
the same register and goes to the same address, or it raises the exception of a misaligned target
and has then written nothing. Beside the registers, the markers of the one read last and the one
written last, and the program counter, the hart stays as it is. The program counter points behind
the instruction, as a step has it when it executes one. -/
theorem conforms_of_decode {w : Word} {d : Decoded} (hd : decode w = .ok d)
    (hname : d.mnemonic ∈ Rv32i.mnemonics) :
    ∃ i handler, Rv32i.ofWord? w = some i ∧
      DispatchTable.standard.handler? d.mnemonic = some handler ∧
      (∀ h : Hart, h.pc = h.instructionPc + 4 →
        h.Conforms (i.execute h.reference) (handler (.raw d) h)) ∧
      ∀ h k : Hart, h.executing? = some (.raw d, k) →
        k.pc = k.instructionPc + 4 ∧
          h.step .standard = match handler (.raw d) k with
            | .ok _ k' => .ok () { k' with instret := k'.instret + 1 }
            | .error e k' => k'.fail (some (.raw d)) e := by
  obtain ⟨hlow, e, he, hw, rfl⟩ := exists_row_of_decode hd
  obtain ⟨handler, hmem, himplements⟩ := Exec.exists_implements he hname
  obtain ⟨i, hword, hconforms⟩ := himplements w hlow hw
  have hset : InstructionSet.integer ∈ InstructionSet.standard := by simp [InstructionSet.standard]
  have hfind := DispatchTable.handler?_of_mem DispatchTable.build_standard hset hmem
  refine ⟨i, handler, hword, hfind, hconforms, fun h k hx => ⟨?_, ?_⟩⟩
  · obtain ⟨b, memory, -, -, rfl⟩ := Hart.executing?_eq_some hx
    rfl
  · exact Hart.step_of_executing? hx hfind

/-- A jump through the register that it links. -/
def jumpThroughLink : Decoded := ⟨"jalr", [1, 1, 0], 0x000080E7, .i, 0⟩

/-- A hart at that jump, with an address in the register. -/
def Hart.atJump (target : Word) : Hart :=
  { regs := ({} : RegisterFile).write 1 target
    pc := 0x1000
    memory := { sections := [.ofInstructions ".text" 0x1000 .code [.raw jumpThroughLink]] } }

/-- The target is read before the link is written, and its lowest bit does not count. The bit above
does, and then the register is not written. -/
theorem conforms_of_jumpThroughLink :
    decode jumpThroughLink.encoding = .ok jumpThroughLink ∧
      jumpThroughLink.mnemonic ∈ Rv32i.mnemonics ∧
      (∃ h, (Hart.atJump 0x2001).step .standard = .ok () h ∧ h.pc = 0x2000 ∧
        h.regs.peek 1 = 0x1004) ∧
      ∃ h, (Hart.atJump 0x2003).step .standard =
          .error (.fault ⟨0x1000, (Instruction.raw jumpThroughLink).text,
            .trap (.instructionAddressMisaligned 0x2002)⟩) h ∧
        h.regs.peek 1 = 0x2003 := by
  have hd : decode jumpThroughLink.encoding = .ok jumpThroughLink :=
    decode_of_accepts (e := .minor "jalr" 0b11001 0b000 .i) (by decide +kernel) (by decide)
      (by decide)
  have hname : jumpThroughLink.mnemonic ∈ Rv32i.mnemonics := by decide
  obtain ⟨i, handler, hword, -, hconforms, hstep⟩ := conforms_of_decode hd hname
  have hi : i = .jalr 1 1 0 := by
    have heval : Rv32i.ofWord? jumpThroughLink.encoding = some (.jalr 1 1 0) := by decide
    exact Option.some.inj (hword.symm.trans heval)
  subst hi
  refine ⟨hd, hname, ?_, ?_⟩
  · obtain ⟨hpc, hstep⟩ := hstep (Hart.atJump 0x2001) _ rfl
    have hconforms := hconforms _ hpc
    generalize handler _ _ = r at hstep hconforms
    rw [hstep]
    cases hconforms with
    | ok hregs => exact ⟨_, rfl, rfl, hregs.peek 1⟩
  · obtain ⟨hpc, hstep⟩ := hstep (Hart.atJump 0x2003) _ rfl
    have hconforms := hconforms _ hpc
    generalize handler _ _ = r at hstep hconforms
    rw [hstep]
    cases hconforms with
    | misaligned t lastRead => exact ⟨_, rfl, rfl⟩

end Riscv32
