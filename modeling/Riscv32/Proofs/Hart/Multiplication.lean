import Riscv32.Proofs.Hart.Executable
import Riscv32.Proofs.Hart.Effect

/-!
# Multiplication and division

The instructions that give the low and the high word of a product give the two halves of the exact
product between them, for each of the three ways to read the operands. A quotient and its remainder
make up the dividend again, whatever the divisor is, and the remainder is smaller than the divisor
and has the sign of the dividend. Only a divisor of zero and the least word divided by minus one
need a rule of their own.

The same results come out of 64-bit arithmetic that has no value for a product that overflows, and
of a division that has none for a divisor of zero: neither ever happens.

## Main definitions

* `MultiplyOp` — the instructions, with what each computes.
* `MultiplyOp.checked` — the same with arithmetic that may have no value.

## Main statements

* `highWord_append_multiply`, the halves of a product.
* `MultiplyOp.signed_quotient_remainder` and `MultiplyOp.unsigned_quotient_remainder`.
* `MultiplyOp.checked_eq`, that there always is a value.
* `Exec.multiplication_exact`, all of this for the instructions.
-/
namespace Riscv32

/-- Multiplication and division. -/
inductive MultiplyOp
  | mul
  | mulh
  | mulhsu
  | mulhu
  | div
  | divu
  | rem
  | remu
  deriving DecidableEq

namespace MultiplyOp

/-- The name of the instruction. -/
def mnemonic : MultiplyOp → String
  | mul => "mul"
  | mulh => "mulh"
  | mulhsu => "mulhsu"
  | mulhu => "mulhu"
  | div => "div"
  | divu => "divu"
  | rem => "rem"
  | remu => "remu"

/-- What the instruction computes. -/
def compute : MultiplyOp → Word → Word → Word
  | mul => Exec.multiply
  | mulh => Exec.multiplyHigh
  | mulhsu => Exec.multiplyHighMixed
  | mulhu => Exec.multiplyHighUnsigned
  | div => Exec.divideSigned
  | divu => Exec.divideUnsigned
  | rem => Exec.remainderSigned
  | remu => Exec.remainderUnsigned

theorem handler?_eq (o : MultiplyOp) : DispatchTable.standard.handler? o.mnemonic =
    some (Exec.registerRegister o.compute) := by
  have hmem : (o.mnemonic, Exec.registerRegister o.compute) ∈
      InstructionSet.multiplication.handlers := by
    cases o <;> simp [InstructionSet.multiplication, Exec.multiplyHandlers, mnemonic, compute]
  exact DispatchTable.handler?_of_mem DispatchTable.build_standard
    (by simp [InstructionSet.standard]) hmem

/-! ## Products -/

/-- The two words of a 64-bit integer. -/
theorem ofInt_append_ofInt (p : Int) :
    BitVec.ofInt 32 (p / 0x100000000) ++ BitVec.ofInt 32 p = BitVec.ofInt 64 p := by
  apply BitVec.eq_of_toNat_eq
  rw [BitVec.toNat_append, ← Nat.shiftLeft_add_eq_or_of_lt (BitVec.isLt _), Nat.shiftLeft_eq]
  simp only [BitVec.toNat_ofInt]
  omega

theorem ofInt_toNat (x : Word) : BitVec.ofInt 32 (x.toNat : Int) = x := by
  rw [BitVec.ofInt_natCast, BitVec.ofNat_toNat, BitVec.setWidth_eq]

/-- The words of a product are those of its 64-bit two's complement. -/
theorem highWord_append_multiply {x y : Word} {a b : Int} (ha : BitVec.ofInt 32 a = x)
    (hb : BitVec.ofInt 32 b = y) :
    Exec.highWordOfProduct a b ++ Exec.multiply x y = BitVec.ofInt 64 (a * b) := by
  rw [← ofInt_append_ofInt, Exec.highWordOfProduct, Exec.multiply, BitVec.ofInt_mul, ha, hb]

theorem natAbs_toInt_le (x : Word) : x.toInt.natAbs ≤ 0x80000000 := by
  have hlow := BitVec.le_toInt x
  have hhigh := BitVec.toInt_lt (x := x)
  omega

/-- A product of words, of which one is read as signed, has 64 bits. -/
theorem natAbs_mul_lt {a b : Int} (ha : a.natAbs ≤ 0x80000000) (hb : b.natAbs < 0x100000000) :
    (a * b).natAbs < 0x8000000000000000 := by
  have hle : a.natAbs * b.natAbs ≤ 0x80000000 * (0x100000000 - 1) := Nat.mul_le_mul ha (by omega)
  rw [Int.natAbs_mul]
  omega

theorem toInt_ofInt_of_natAbs_lt {p : Int} (hp : p.natAbs < 0x8000000000000000) :
    (BitVec.ofInt 64 p).toInt = p := by
  rw [BitVec.toInt_ofInt]
  exact Int.bmod_eq_of_le (by omega) (by omega)

theorem natAbs_signed_lt (x y : Word) : (x.toInt * y.toInt).natAbs < 0x8000000000000000 :=
  natAbs_mul_lt (natAbs_toInt_le x) (Nat.lt_of_le_of_lt (natAbs_toInt_le y) (by decide))

theorem natAbs_mixed_lt (x y : Word) : (x.toInt * y.toNat).natAbs < 0x8000000000000000 :=
  natAbs_mul_lt (natAbs_toInt_le x) (by omega)

theorem toNat_mul_lt (x y : Word) : x.toNat * y.toNat < 0x10000000000000000 := by
  have hlt : x.toNat * y.toNat < 0x100000000 * 0x100000000 := Nat.mul_lt_mul'' x.isLt y.isLt
  omega

/-- The signed product. -/
theorem toInt_mulh_append (x y : Word) :
    (compute mulh x y ++ compute mul x y).toInt = x.toInt * y.toInt := by
  rw [compute, compute, Exec.multiplyHigh,
    highWord_append_multiply (BitVec.ofInt_toInt) (BitVec.ofInt_toInt),
    toInt_ofInt_of_natAbs_lt (natAbs_signed_lt x y)]

/-- The product of a signed and an unsigned word. -/
theorem toInt_mulhsu_append (x y : Word) :
    (compute mulhsu x y ++ compute mul x y).toInt = x.toInt * y.toNat := by
  rw [compute, compute, Exec.multiplyHighMixed,
    highWord_append_multiply (BitVec.ofInt_toInt) (ofInt_toNat y),
    toInt_ofInt_of_natAbs_lt (natAbs_mixed_lt x y)]

/-- The unsigned product. -/
theorem toNat_mulhu_append (x y : Word) :
    (compute mulhu x y ++ compute mul x y).toNat = x.toNat * y.toNat := by
  rw [compute, compute, Exec.multiplyHighUnsigned,
    highWord_append_multiply (ofInt_toNat x) (ofInt_toNat y), ← Int.natCast_mul,
    BitVec.ofInt_natCast, BitVec.toNat_ofNat]
  exact Nat.mod_eq_of_lt (toNat_mul_lt x y)

/-! ## Quotients and remainders -/

theorem sdiv_eq_ofInt (x y : Word) : x.sdiv y = BitVec.ofInt 32 (x.toInt.tdiv y.toInt) := by
  apply BitVec.eq_of_toInt_eq
  rw [BitVec.toInt_sdiv, BitVec.toInt_ofInt]

theorem srem_eq_ofInt (x y : Word) : x.srem y = BitVec.ofInt 32 (x.toInt.tmod y.toInt) := by
  rw [← BitVec.toInt_srem, BitVec.ofInt_toInt]

/-- A signed quotient and its remainder make up the dividend, whatever the divisor is. -/
theorem signed_quotient_remainder (x y : Word) :
    compute div x y * y + compute rem x y = x := by
  simp only [compute, Exec.divideSigned, Exec.remainderSigned]
  split
  case isTrue hy => simp [hy]
  case isFalse =>
    calc x.sdiv y * y + x.srem y
      _ = BitVec.ofInt 32 (x.toInt.tdiv y.toInt * y.toInt + x.toInt.tmod y.toInt) := by
        rw [BitVec.ofInt_add, BitVec.ofInt_mul, BitVec.ofInt_toInt, ← sdiv_eq_ofInt,
          ← srem_eq_ofInt]
      _ = x := by rw [Int.tdiv_mul_add_tmod, BitVec.ofInt_toInt]

/-- An unsigned quotient and its remainder make up the dividend, whatever the divisor is. -/
theorem unsigned_quotient_remainder (x y : Word) :
    compute divu x y * y + compute remu x y = x := by
  simp only [compute, Exec.divideUnsigned, Exec.remainderUnsigned]
  split
  case isTrue hy => simp [hy]
  case isFalse =>
    apply BitVec.eq_of_toNat_eq
    rw [BitVec.toNat_add, BitVec.toNat_mul, BitVec.toNat_udiv, BitVec.toNat_umod, Nat.mod_add_mod,
      Nat.div_add_mod', Nat.mod_eq_of_lt x.isLt]

theorem toInt_ne_zero {y : Word} (hy : y ≠ 0) : y.toInt ≠ 0 := fun h =>
  hy (BitVec.eq_of_toInt_eq (h.trans BitVec.toInt_zero.symm))

/-- A signed remainder is smaller than the divisor, and is zero or has the sign of the dividend. -/
theorem signed_remainder_lt {x y : Word} (hy : y ≠ 0) :
    (compute rem x y).toInt.natAbs < y.toInt.natAbs ∧
      ((compute rem x y).toInt = 0 ∨ (compute rem x y).toInt.sign = x.toInt.sign) := by
  have hpos : 0 < y.toInt.natAbs := Int.natAbs_pos.2 (toInt_ne_zero hy)
  have hrem : (compute rem x y).toInt = x.toInt.tmod y.toInt := by
    rw [compute, Exec.remainderSigned, if_neg hy, BitVec.toInt_srem]
  rw [hrem]
  constructor
  · rw [Int.natAbs_tmod]
    exact Nat.mod_lt _ hpos
  · rw [Int.sign_tmod]
    by_cases hdvd : y.toInt ∣ x.toInt
    · exact .inl (Int.tmod_eq_zero_of_dvd hdvd)
    · exact .inr (if_neg hdvd)

theorem unsigned_remainder_lt {x y : Word} (hy : y ≠ 0) :
    (compute remu x y).toNat < y.toNat := by
  have hpos : 0 < y.toNat := Nat.pos_of_ne_zero fun h => hy (BitVec.eq_of_toNat_eq h)
  rw [compute, Exec.remainderUnsigned, if_neg hy, BitVec.toNat_umod]
  exact Nat.mod_lt _ hpos

/-! ## Arithmetic that may have no value -/

/-- A product of signed 64-bit integers, unless it overflows. -/
def signedProduct? (x y : BitVec 64) : Option (BitVec 64) :=
  if x.smulOverflow y then none else some (x * y)

/-- A product of unsigned 64-bit integers, unless it overflows. -/
def unsignedProduct? (x y : BitVec 64) : Option (BitVec 64) :=
  if x.umulOverflow y then none else some (x * y)

/-- A quotient or remainder, unless the divisor is zero. -/
def divided? (op : Word → Word → Word) (x y : Word) : Option Word :=
  if y = 0 then none else some (op x y)

/-- What the instruction computes, with 64-bit products and divisions that may have no value. -/
def checked (x y : Word) : MultiplyOp → Option Word
  | mul => some (x * y)
  | mulh => (signedProduct? (x.signExtend 64) (y.signExtend 64)).map (·.extractLsb' 32 32)
  | mulhsu => (signedProduct? (x.signExtend 64) (y.setWidth 64)).map (·.extractLsb' 32 32)
  | mulhu => (unsignedProduct? (x.setWidth 64) (y.setWidth 64)).map (·.extractLsb' 32 32)
  | div => if y = 0 then some (BitVec.allOnes 32) else divided? BitVec.sdiv x y
  | divu => if y = 0 then some (BitVec.allOnes 32) else divided? BitVec.udiv x y
  | rem => if y = 0 then some x else divided? BitVec.srem x y
  | remu => if y = 0 then some x else divided? BitVec.umod x y

theorem toInt_signExtend (x : Word) : (x.signExtend 64).toInt = x.toInt :=
  BitVec.toInt_signExtend_of_le (by decide)

theorem toInt_setWidth (x : Word) : (x.setWidth 64).toInt = x.toNat := by
  have hlt : (x.setWidth 64).toNat = x.toNat := by
    rw [BitVec.toNat_setWidth, Nat.mod_eq_of_lt (by omega)]
  rw [BitVec.toInt_eq_toNat_of_lt (by omega), hlt]

/-- A product whose factors are small enough does not overflow, and its upper half is the high
word. -/
theorem signedProduct?_eq {x y : BitVec 64} (h : (x.toInt * y.toInt).natAbs < 0x8000000000000000) :
    (signedProduct? x y).map (·.extractLsb' 32 32) =
      some (Exec.highWordOfProduct x.toInt y.toInt) := by
  have hoverflow : x.smulOverflow y = false := by
    rw [BitVec.smulOverflow, Bool.or_eq_false_iff, decide_eq_false_iff_not, decide_eq_false_iff_not]
    omega
  have hproduct : x * y = BitVec.ofInt 64 (x.toInt * y.toInt) := by
    rw [BitVec.ofInt_mul, BitVec.ofInt_toInt, BitVec.ofInt_toInt]
  rw [signedProduct?, if_neg (by rw [hoverflow]; decide), hproduct, ← ofInt_append_ofInt,
    Option.map_some, BitVec.extractLsb'_append_eq_left, Exec.highWordOfProduct]

theorem unsignedProduct?_eq (x y : Word) :
    (unsignedProduct? (x.setWidth 64) (y.setWidth 64)).map (·.extractLsb' 32 32) =
      some (Exec.highWordOfProduct x.toNat y.toNat) := by
  have hx : (x.setWidth 64).toNat = x.toNat := by
    rw [BitVec.toNat_setWidth, Nat.mod_eq_of_lt (by omega)]
  have hy : (y.setWidth 64).toNat = y.toNat := by
    rw [BitVec.toNat_setWidth, Nat.mod_eq_of_lt (by omega)]
  have hoverflow : (x.setWidth 64).umulOverflow (y.setWidth 64) = false := by
    rw [BitVec.umulOverflow, decide_eq_false_iff_not, hx, hy]
    exact Nat.not_le.2 (toNat_mul_lt x y)
  have hproduct : x.setWidth 64 * y.setWidth 64 = BitVec.ofInt 64 ((x.toNat : Int) * y.toNat) := by
    rw [← Int.natCast_mul, BitVec.ofInt_natCast, BitVec.ofNat_mul, ← hx, ← hy, BitVec.ofNat_toNat,
      BitVec.ofNat_toNat, BitVec.setWidth_eq, BitVec.setWidth_eq]
  rw [unsignedProduct?, if_neg (by rw [hoverflow]; decide), hproduct, ← ofInt_append_ofInt,
    Option.map_some, BitVec.extractLsb'_append_eq_left, Exec.highWordOfProduct]

/-- No product overflows and nothing is divided by zero. -/
theorem checked_eq (o : MultiplyOp) (x y : Word) : o.checked x y = some (o.compute x y) := by
  have hdivided (op : Word → Word → Word) (otherwise : Word) :
      (if y = 0 then some otherwise else divided? op x y) =
        some (if y = 0 then otherwise else op x y) := by
    rw [divided?]
    split <;> rfl
  cases o with
  | mul => rfl
  | mulh =>
    have hproduct := signedProduct?_eq (x := x.signExtend 64) (y := y.signExtend 64)
    rw [toInt_signExtend, toInt_signExtend] at hproduct
    exact hproduct (natAbs_signed_lt x y)
  | mulhsu =>
    have hproduct := signedProduct?_eq (x := x.signExtend 64) (y := y.setWidth 64)
    rw [toInt_signExtend, toInt_setWidth] at hproduct
    exact hproduct (natAbs_mixed_lt x y)
  | mulhu => exact unsignedProduct?_eq x y
  | div => exact hdivided BitVec.sdiv (BitVec.allOnes 32)
  | divu => exact hdivided BitVec.udiv (BitVec.allOnes 32)
  | rem => exact hdivided BitVec.srem x
  | remu => exact hdivided BitVec.umod x

end MultiplyOp

/-! ## The instructions -/

namespace Exec

variable {inst : Instruction} {rd left right : Nat}

/-- An operation on two registers reads both, in their order, and writes the result. -/
theorem registerRegister_eq (op : Word → Word → Word) (hrd : inst.register 0 = .ok rd)
    (hleft : inst.register 1 = .ok left) (hright : inst.register 2 = .ok right) (h : Hart) :
    registerRegister op inst h = .ok () { h with
      regs := ((h.regs.markRead left).markRead right).write rd
        (op (h.regs.peek left) (h.regs.peek right)) } := by
  rw [registerRegister, bind_of_ok (operand_of_ok hrd h), bind_of_ok (operand_of_ok hleft h),
    readX_bind, bind_of_ok (operand_of_ok hright _)]
  rfl

open MultiplyOp in
/-- Multiplication and division. The high and the low word make up the exact product, read as signed
if a factor is. A quotient times the divisor plus the remainder is the dividend, also if the divisor
is zero. For any other divisor the remainder is smaller, and the signed one is zero or has the sign
of the dividend. A division by zero gives ones and leaves the dividend, and the least word divided
by minus one gives itself and leaves zero. No product of 64 bits overflows and nothing is divided by
zero on the way. And each instruction writes what it computes of two registers to a third. -/
theorem multiplication_exact :
    (∀ x y : Word,
      (compute mulh x y ++ compute mul x y).toInt = x.toInt * y.toInt ∧
      (compute mulhsu x y ++ compute mul x y).toInt = x.toInt * y.toNat ∧
      (compute mulhu x y ++ compute mul x y).toNat = x.toNat * y.toNat ∧
      compute div x y * y + compute rem x y = x ∧
      compute divu x y * y + compute remu x y = x ∧
      (y ≠ 0 →
        (compute rem x y).toInt.natAbs < y.toInt.natAbs ∧
        ((compute rem x y).toInt = 0 ∨ (compute rem x y).toInt.sign = x.toInt.sign) ∧
        (compute remu x y).toNat < y.toNat) ∧
      compute div x 0 = BitVec.allOnes 32 ∧ compute divu x 0 = BitVec.allOnes 32 ∧
      compute rem x 0 = x ∧ compute remu x 0 = x ∧
      compute div (BitVec.intMin 32) (-1) = BitVec.intMin 32 ∧
      compute rem (BitVec.intMin 32) (-1) = 0 ∧
      ∀ o : MultiplyOp, o.checked x y = some (o.compute x y)) ∧
    ∀ (o : MultiplyOp) (inst : Instruction) (rd left right : Nat) (h : Hart),
      inst.register 0 = .ok rd → inst.register 1 = .ok left → inst.register 2 = .ok right →
      ∃ f, DispatchTable.standard.handler? o.mnemonic = some f ∧ f inst h = .ok () { h with
        regs := ((h.regs.markRead left).markRead right).write rd
          (o.compute (h.regs.peek left) (h.regs.peek right)) } := by
  constructor
  · intro x y
    refine ⟨toInt_mulh_append x y, toInt_mulhsu_append x y, toNat_mulhu_append x y,
      signed_quotient_remainder x y, unsigned_quotient_remainder x y, fun hy => ?_, rfl, rfl, rfl,
      rfl, by decide, by decide, fun o => checked_eq o x y⟩
    obtain ⟨hlt, hsign⟩ := signed_remainder_lt (x := x) hy
    exact ⟨hlt, hsign, unsigned_remainder_lt hy⟩
  · intro o inst rd left right h hrd hleft hright
    exact ⟨_, handler?_eq o, registerRegister_eq o.compute hrd hleft hright h⟩

open MultiplyOp in
/-- The product of the largest factors, the remainder of the quotient that wraps, and a division by
zero in which one register is divisor and destination. -/
theorem multiplication_exact_of_extremes :
    (compute mulhsu (BitVec.intMin 32) (BitVec.allOnes 32) ++
      compute mul (BitVec.intMin 32) (BitVec.allOnes 32)).toInt = -0x80000000 * 0xFFFFFFFF ∧
    ((-1 : Word) ≠ 0 ∧ (compute rem (BitVec.intMin 32) (-1)).toInt.natAbs < 1) ∧
    ∃ f, DispatchTable.standard.handler? "div" = some f ∧
      ∃ h', f (.structured "div" ["t0", "t1", "t0"])
          ({ regs := ({} : RegisterFile).write 6 7 } : Hart) = .ok () h' ∧
        h'.regs.peek 5 = BitVec.allOnes 32 := by
  obtain ⟨hwords, hinstructions⟩ := multiplication_exact
  have hne : (-1 : Word) ≠ 0 := by decide
  refine ⟨(hwords (BitVec.intMin 32) (BitVec.allOnes 32)).2.1, ⟨hne, ?_⟩, ?_⟩
  · exact ((hwords (BitVec.intMin 32) (-1)).2.2.2.2.2.1 hne).1
  · obtain ⟨f, hf, hok⟩ := hinstructions .div (.structured "div" ["t0", "t1", "t0"]) 5 6 5
      { regs := ({} : RegisterFile).write 6 7 } rfl rfl rfl
    exact ⟨f, hf, _, hok, rfl⟩

end Exec
end Riscv32
