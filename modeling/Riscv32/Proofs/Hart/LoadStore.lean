import Riscv32.Proofs.Hart.Control
import Riscv32.Proofs.Hart.Executable
import Riscv32.Proofs.Hart.Uniform
import Riscv32.Proofs.Instruction.Operand
import Riscv32.Proofs.Memory.AfterWrite

/-!
# Loads after stores

A load that lies inside of what a store has written succeeds, and its destination then holds those
bytes of what the store took from its source, extended as the load extends them. This is so for
integers and for floating-point numbers alike, whose bits no load or store interprets: a number may
be stored whole and loaded in parts, or as an integer, and a NaN keeps its payload. A load from
elsewhere does what it would have done before the store.

## Main definitions

* `Instruction.address? inst h` — the address of a load or store.
* `StoreOp` and `LoadOp` — the stores and the loads, with what they take and what they leave.

## Main statements

* `StoreOp.eq_ok`, what a store does to memory.
* `LoadOp.eq_of_operands` and `LoadOp.refused`, what a load does, and when it does not get to it.
* `Exec.load_after_store`, a load after a store.
-/
namespace Riscv32

/-- The number in some bytes of a pattern of eight. -/
theorem toNat_bytes (v : BitVec 64) (k c : Nat) :
    (v.extractLsb' (8 * k) (8 * c)).toNat = v.toNat / 256 ^ k % 256 ^ c := by
  have hbase : (2 : Nat) ^ 8 = 256 := by decide
  rw [BitVec.extractLsb'_toNat, Nat.shiftRight_eq_div_pow, Nat.pow_mul, Nat.pow_mul, hbase]

/-- Bytes of a number do not depend on those above them. -/
theorem mod_div_mod_of_le {k c n : Nat} (h : k + c ≤ n) (v : Nat) :
    v % 256 ^ n / 256 ^ k % 256 ^ c = v / 256 ^ k % 256 ^ c := by
  obtain ⟨r, rfl⟩ := Nat.exists_eq_add_of_le (Nat.le_of_add_right_le h)
  rw [Nat.pow_add, Nat.mod_mul_right_div_self]
  exact Nat.mod_mod_of_dvd _ (Nat.pow_dvd_pow 256 (by omega))

/-! ## Addresses -/

/-- The address of a load or store: what the base register holds, moved by the offset. -/
def Instruction.address? (inst : Instruction) (h : Hart) : Option Word := do
  let base ← (inst.register 1).toOption
  let offset ← (inst.immediate 2 h.memory.symbol?).toOption
  return h.regs.peek base + offset

theorem Instruction.address?_eq_some {inst : Instruction} {h : Hart} {addr : Word}
    (ha : inst.address? h = some addr) :
    ∃ base offset, inst.register 1 = .ok base ∧
      inst.immediate 2 h.memory.symbol? = .ok offset ∧ h.regs.peek base + offset = addr := by
  unfold address? at ha
  cases hbase : inst.register 1 with
  | error e =>
    rw [hbase] at ha
    cases ha
  | ok base =>
    cases hoffset : inst.immediate 2 h.memory.symbol? with
    | error e =>
      rw [hbase, hoffset] at ha
      cases ha
    | ok offset =>
      rw [hbase, hoffset] at ha
      exact ⟨base, offset, rfl, rfl, Option.some.inj ha⟩

namespace Exec

variable {inst : Instruction} {h h' : Hart} {addr : Word} {count : Nat} {p : Precision}
  {handler : Handler}

theorem exists_effectiveAddress (ha : inst.address? h = some addr) :
    ∃ base, inst.register 1 = .ok base ∧
      effectiveAddress inst h = .ok addr { h with regs := h.regs.markRead base } := by
  obtain ⟨base, offset, hbase, hoffset, rfl⟩ := Instruction.address?_eq_some ha
  refine ⟨base, hbase, ?_⟩
  have himmediate : immediate inst 2 { h with regs := h.regs.markRead base } =
      .ok offset { h with regs := h.regs.markRead base } := operand_of_ok hoffset _
  rw [effectiveAddress, bind_of_ok (operand_of_ok hbase h), readX_bind, bind_of_ok himmediate]
  rfl

/-! ## Accesses -/

theorem store_eq_ok {v : Nat} (hok : store addr count v h = .ok () h') :
    AddressSpace.writeNat addr count v h.memory = .ok () h'.memory := by
  obtain ⟨m, hwrite, rfl⟩ := access_eq_ok hok
  exact hwrite

theorem load_of_mapped (h : Hart) (ha : h.memory.Mapped addr) (count : Nat) :
    load addr count h =
      match resultOf (AddressSpace.readNat addr count) h.memory with
      | .ok v => .ok v h
      | .error e => .error (.memory e) h := by
  rw [load, access, AddressSpace.readNat_of_mapped ha]
  cases resultOf (AddressSpace.readNat addr count) h.memory <;> rfl

theorem storeInteger_eq_ok (ha : inst.address? h = some addr)
    (hok : storeInteger count inst h = .ok () h') :
    ∃ i, inst.register 0 = .ok i ∧
      AddressSpace.writeNat addr count (h.regs.peek i).toNat h.memory = .ok () h'.memory := by
  obtain ⟨i, h₁, hoperand, hrest⟩ := bind_eq_ok hok
  obtain ⟨hi, hsame⟩ := operand_eq_ok hoperand
  have hmarked : inst.address? { h with regs := h.regs.markRead i } = some addr := ha
  obtain ⟨base, -, haddr⟩ := exists_effectiveAddress hmarked
  rw [hsame, readX_bind, bind_of_ok haddr] at hrest
  have hwrite := store_eq_ok hrest
  exact ⟨i, hi, hwrite⟩

theorem floatStore_eq_ok (ha : inst.address? h = some addr)
    (hok : floatStore p inst h = .ok () h') :
    ∃ i, inst.floatRegister 0 = .ok i ∧
      AddressSpace.writeNat addr p.bytes (h.regs.floats.read p i).toNat h.memory =
        .ok () h'.memory := by
  obtain ⟨i, h₁, hoperand, hrest⟩ := bind_eq_ok hok
  obtain ⟨hi, hsame⟩ := operand_eq_ok hoperand
  obtain ⟨base, -, haddr⟩ := exists_effectiveAddress ha
  rw [hsame, readF_bind, bind_of_ok haddr] at hrest
  have hwrite := store_eq_ok hrest
  exact ⟨i, hi, hwrite⟩

theorem wide_eq_ok (hok : wide handler inst h = .ok () h') : handler inst h = .ok () h' := by
  obtain ⟨_, h₁, hneeds, hrest⟩ := bind_eq_ok hok
  rw [needs_double_eq] at hneeds
  split at hneeds
  case isTrue =>
    cases hneeds
    exact hrest
  case isFalse => cases hneeds

end Exec

/-! ## Stores -/

/-- The stores. -/
inductive StoreOp
  | sb
  | sh
  | sw
  | fsw
  | fsd
  deriving DecidableEq

namespace StoreOp

variable {x : StoreOp} {inst : Instruction} {h h' : Hart} {addr : Word}

/-- The name of the instruction. -/
def mnemonic : StoreOp → String
  | sb => "sb"
  | sh => "sh"
  | sw => "sw"
  | fsw => "fsw"
  | fsd => "fsd"

/-- The count of the bytes that are written. -/
def count : StoreOp → Nat
  | sb => 1
  | sh => 2
  | sw | fsw => 4
  | fsd => 8

/-- The register that is stored. -/
def source (inst : Instruction) : StoreOp → Except OperandError Nat
  | sb | sh | sw => inst.register 0
  | fsw | fsd => inst.floatRegister 0

/-- What the register holds. Its low bytes are stored. -/
def value (f : RegisterFile) (i : Nat) : StoreOp → BitVec 64
  | sb | sh | sw => (f.peek i).setWidth 64
  | fsw | fsd => f.floats.readBits i

/-- What the instruction does. -/
def handler : StoreOp → Handler
  | sb => Exec.storeInteger 1
  | sh => Exec.storeInteger 2
  | sw => Exec.storeInteger 4
  | fsw => Exec.floatStore .single
  | fsd => Exec.wide (Exec.floatStore .double)

theorem handler?_eq (x : StoreOp) :
    DispatchTable.standard.handler? x.mnemonic = some x.handler := by
  have hfind {s : InstructionSet} (hs : s ∈ InstructionSet.standard)
      (hmem : (x.mnemonic, x.handler) ∈ s.handlers) :
      DispatchTable.standard.handler? x.mnemonic = some x.handler :=
    DispatchTable.handler?_of_mem DispatchTable.build_standard hs hmem
  cases x with
  | sb | sh | sw =>
    exact hfind (s := .integer) (by simp [InstructionSet.standard])
      (by simp [InstructionSet.integer, Exec.integerHandlers, mnemonic, handler])
  | fsw =>
    exact hfind (s := .singlePrecision) (by simp [InstructionSet.standard])
      (by simp [InstructionSet.singlePrecision, Exec.singleHandlers, mnemonic, handler])
  | fsd =>
    exact hfind (s := .doublePrecision) (by simp [InstructionSet.standard])
      (by simp [InstructionSet.doublePrecision, Exec.doubleHandlers, mnemonic, handler])

/-- A store that succeeds has written a number with the low bytes of its source. -/
theorem eq_ok (ha : inst.address? h = some addr) (hok : x.handler inst h = .ok () h') :
    ∃ i v, x.source inst = .ok i ∧
      AddressSpace.writeNat addr x.count v h.memory = .ok () h'.memory ∧
      v % 256 ^ x.count = (x.value h.regs i).toNat % 256 ^ x.count := by
  have hsmall (w : Word) : w.toNat = (w.setWidth 64).toNat := by
    rw [BitVec.toNat_setWidth, Nat.mod_eq_of_lt (by omega)]
  cases x with
  | sb | sh | sw =>
    obtain ⟨i, hi, hwrite⟩ := Exec.storeInteger_eq_ok ha hok
    exact ⟨i, _, hi, hwrite, congrArg (· % _) (hsmall _)⟩
  | fsw =>
    obtain ⟨i, hi, hwrite⟩ := Exec.floatStore_eq_ok ha hok
    refine ⟨i, _, hi, hwrite, ?_⟩
    change ((h.regs.floats.readBits i).setWidth 32).toNat % 2 ^ 32 = _ % 2 ^ 32
    rw [BitVec.toNat_setWidth, Nat.mod_mod]
    rfl
  | fsd =>
    obtain ⟨i, hi, hwrite⟩ := Exec.floatStore_eq_ok ha (Exec.wide_eq_ok hok)
    refine ⟨i, _, hi, hwrite, ?_⟩
    change ((h.regs.floats.readBits i).setWidth 64).toNat % 2 ^ 64 = _ % 2 ^ 64
    rw [BitVec.setWidth_eq]
    rfl

end StoreOp

/-! ## Loads -/

/-- The loads. -/
inductive LoadOp
  | lb
  | lbu
  | lh
  | lhu
  | lw
  | flw
  | fld
  deriving DecidableEq

namespace LoadOp

variable {y : LoadOp} {inst : Instruction} {k : Hart} {addr : Word} {f : RegisterFile} {rd : Nat}

/-- The name of the instruction. -/
def mnemonic : LoadOp → String
  | lb => "lb"
  | lbu => "lbu"
  | lh => "lh"
  | lhu => "lhu"
  | lw => "lw"
  | flw => "flw"
  | fld => "fld"

/-- The count of the bytes that are read. -/
def count : LoadOp → Nat
  | lb | lbu => 1
  | lh | lhu => 2
  | lw | flw => 4
  | fld => 8

/-- The register that is loaded. -/
def destination (inst : Instruction) : LoadOp → Except OperandError Nat
  | lb | lbu | lh | lhu | lw => inst.register 0
  | flw | fld => inst.floatRegister 0

/-- The bytes as the register is to hold them: with copies of the sign above them, or with zeros. -/
def extend : (y : LoadOp) → BitVec (8 * y.count) → BitVec 64
  | lb, v => (v.signExtend 32).setWidth 64
  | lh, v => (v.signExtend 32).setWidth 64
  | lbu, v => v.setWidth 64
  | lhu, v => v.setWidth 64
  | lw, v => v.setWidth 64
  | flw, v => v.setWidth 64
  | fld, v => v.setWidth 64

/-- What the register holds. -/
def held (f : RegisterFile) (i : Nat) : LoadOp → BitVec 64
  | lb | lbu | lh | lhu | lw => (f.peek i).setWidth 64
  | flw | fld => f.floats.readBits i

/-- The register keeps what is written to it, which register 0 does not. -/
def Kept (i : Nat) : LoadOp → Prop
  | lb | lbu | lh | lhu | lw => i ≠ Register.zero
  | flw | fld => True

/-- The registers are wide enough for the instruction. -/
def Supported (f : RegisterFile) (y : LoadOp) : Prop := y = fld → f.floats.precision = .double

instance (f : RegisterFile) (y : LoadOp) : Decidable (y.Supported f) :=
  inferInstanceAs (Decidable (_ → _))

/-- What the instruction does. -/
def handler : LoadOp → Handler
  | lb => Exec.loadInteger 1 (Exec.signed 8)
  | lbu => Exec.loadInteger 1 Exec.unsigned
  | lh => Exec.loadInteger 2 (Exec.signed 16)
  | lhu => Exec.loadInteger 2 Exec.unsigned
  | lw => Exec.loadInteger 4 Exec.unsigned
  | flw => Exec.floatLoad .single
  | fld => Exec.wide (Exec.floatLoad .double)

theorem handler?_eq (y : LoadOp) :
    DispatchTable.standard.handler? y.mnemonic = some y.handler := by
  have hfind {s : InstructionSet} (hs : s ∈ InstructionSet.standard)
      (hmem : (y.mnemonic, y.handler) ∈ s.handlers) :
      DispatchTable.standard.handler? y.mnemonic = some y.handler :=
    DispatchTable.handler?_of_mem DispatchTable.build_standard hs hmem
  cases y with
  | lb | lbu | lh | lhu | lw =>
    exact hfind (s := .integer) (by simp [InstructionSet.standard])
      (by simp [InstructionSet.integer, Exec.integerHandlers, mnemonic, handler])
  | flw =>
    exact hfind (s := .singlePrecision) (by simp [InstructionSet.standard])
      (by simp [InstructionSet.singlePrecision, Exec.singleHandlers, mnemonic, handler])
  | fld =>
    exact hfind (s := .doublePrecision) (by simp [InstructionSet.standard])
      (by simp [InstructionSet.doublePrecision, Exec.doubleHandlers, mnemonic, handler])

/-- The check that the registers are wide enough. -/
def needs (inst : Instruction) : LoadOp → Exec Unit
  | fld => Exec.needs .double inst
  | _ => pure ()

/-- The registers with what was read in the destination. -/
def deliver (rd v : Nat) (f : RegisterFile) : LoadOp → RegisterFile
  | lb => f.write rd (Exec.signed 8 v)
  | lh => f.write rd (Exec.signed 16 v)
  | lbu | lhu | lw => f.write rd (Exec.unsigned v)
  | flw => { f with floats := f.floats.write .single rd (BitVec.ofNat _ v) }
  | fld => { f with floats := f.floats.write .double rd (BitVec.ofNat _ v) }

/-- Reads memory and delivers what is read. -/
def transfer (addr : Word) (rd : Nat) (y : LoadOp) : Exec Unit := do
  let v ← Exec.load addr y.count
  modify fun k => { k with regs := y.deliver rd v k.regs }

/-- The loads in one form. -/
theorem handler_eq (y : LoadOp) (inst : Instruction) :
    y.handler inst = (do
      y.needs inst
      let rd ← y.destination inst
      let addr ← Exec.effectiveAddress inst
      y.transfer addr rd) := by
  cases y <;> rfl

/-- The destination holds what was read, extended. -/
theorem held_deliver (hrd : y.destination inst = .ok rd) (hkept : y.Kept rd)
    (hsupported : y.Supported f) (v : BitVec (8 * y.count)) :
    y.held (y.deliver rd v.toNat f) rd = y.extend v := by
  have hinteger (hreg : inst.register 0 = .ok rd) (hne : rd ≠ Register.zero) (w : Word) :
      (f.write rd w).peek rd = w := f.peek_write_self hne (Instruction.register_lt hreg) w
  have hfloat {p : Precision} (hreg : inst.floatRegister 0 = .ok rd)
      (hfits : p.width ≤ f.floats.precision.width) (w : FloatBits p) :
      (f.floats.write p rd (BitVec.ofNat p.width w.toNat)).readBits rd = w.setWidth 64 := by
    rw [f.floats.readBits_write_self hfits (Instruction.floatRegister_lt hreg), BitVec.ofNat_toNat,
      BitVec.setWidth_eq]
  cases y with
  | lb | lh =>
    change ((f.write rd (Exec.signed _ v.toNat)).peek rd).setWidth 64 =
      (v.signExtend 32).setWidth 64
    rw [hinteger hrd hkept, Exec.signed, BitVec.ofNat_toNat]
    exact congrArg (fun w => (BitVec.signExtend 32 w).setWidth 64) (BitVec.setWidth_eq v)
  | lbu | lhu | lw =>
    change ((f.write rd (Exec.unsigned v.toNat)).peek rd).setWidth 64 = v.setWidth 64
    rw [hinteger hrd hkept, Exec.unsigned, BitVec.ofNat_toNat]
    exact BitVec.setWidth_setWidth (by decide)
  | flw =>
    have hfits : Precision.single.width ≤ f.floats.precision.width := by
      cases f.floats.precision <;> decide
    exact hfloat hrd hfits v
  | fld =>
    have hfits : Precision.double.width ≤ f.floats.precision.width := by rw [hsupported rfl]
    exact hfloat hrd hfits v

theorem needs_eq (y : LoadOp) (inst : Instruction) (k : Hart) :
    y.needs inst k = if y.Supported k.regs then .ok () k
      else .error (Exec.illegalError inst) k := by
  by_cases hdouble : y = fld
  · subst hdouble
    have hiff : Supported k.regs fld ↔ k.regs.floats.precision = .double :=
      ⟨fun h => h rfl, fun h _ => h⟩
    rw [if_congr hiff rfl rfl]
    exact Exec.needs_double_eq inst k
  · have hsupported : y.Supported k.regs := fun h => absurd h hdouble
    rw [if_pos hsupported]
    cases y with
    | fld => exact absurd rfl hdouble
    | lb | lbu | lh | lhu | lw | flw => rfl

/-- A load with operands that can be read and registers that are wide enough marks its base
register, reads memory and delivers what it reads. -/
theorem eq_of_operands (k : Hart) (hrd : y.destination inst = .ok rd)
    (hsupported : y.Supported k.regs) (ha : inst.address? k = some addr) :
    ∃ base, inst.register 1 = .ok base ∧
      y.handler inst k = y.transfer addr rd { k with regs := k.regs.markRead base } := by
  obtain ⟨base, hbase, haddr⟩ := Exec.exists_effectiveAddress ha
  refine ⟨base, hbase, ?_⟩
  have hneeds : y.needs inst k = .ok () k := by rw [needs_eq, if_pos hsupported]
  rw [handler_eq, bind_of_ok hneeds, bind_of_ok (Exec.operand_of_ok hrd k), bind_of_ok haddr]

/-- Any other load fails and changes nothing, whatever is in memory. -/
theorem refused (h : ¬ ∃ rd, y.destination inst = .ok rd ∧ y.Supported k.regs) :
    ∃ e, ∀ m, y.handler inst { k with memory := m } = .error e { k with memory := m } := by
  by_cases hsupported : y.Supported k.regs
  · cases hrd : y.destination inst with
    | ok rd => exact absurd ⟨rd, hrd, hsupported⟩ h
    | error e =>
      refine ⟨.operand e, fun m => ?_⟩
      have hneeds : y.needs inst { k with memory := m } = .ok () { k with memory := m } := by
        rw [needs_eq]
        exact if_pos hsupported
      rw [handler_eq, bind_of_ok hneeds, bind_of_error (Exec.operand_of_error hrd _)]
  · refine ⟨Exec.illegalError inst, fun m => ?_⟩
    have hneeds : y.needs inst { k with memory := m } =
        .error (Exec.illegalError inst) { k with memory := m } := by
      rw [needs_eq]
      exact if_neg hsupported
    rw [handler_eq, bind_of_error hneeds]

/-- A load that finds these bytes succeeds if it gets to it, and then delivers them. -/
theorem of_readNat_eq_ok (ha : inst.address? k = some addr) {v : BitVec (8 * y.count)}
    (hread : AddressSpace.readNat addr y.count k.memory = .ok v.toNat k.memory) :
    (∀ rd, y.destination inst = .ok rd → y.Supported k.regs → ∃ k', y.handler inst k = .ok () k') ∧
    ∀ k', y.handler inst k = .ok () k' → ∃ rd regs, y.destination inst = .ok rd ∧
      k' = { k with regs } ∧ (y.Kept rd → y.held regs rd = y.extend v) := by
  have hdone (rd : Nat) (hrd : y.destination inst = .ok rd) (hsupported : y.Supported k.regs) :
      ∃ base, y.handler inst k =
        .ok () { k with regs := y.deliver rd v.toNat (k.regs.markRead base) } := by
    obtain ⟨base, -, heq⟩ := eq_of_operands k hrd hsupported ha
    have hload : Exec.load addr y.count { k with regs := k.regs.markRead base } =
        .ok v.toNat { k with regs := k.regs.markRead base } := by
      rw [Exec.load, Exec.access, hread]
    rw [transfer, bind_of_ok hload] at heq
    exact ⟨base, heq⟩
  constructor
  · intro rd hrd hsupported
    obtain ⟨base, heq⟩ := hdone rd hrd hsupported
    exact ⟨_, heq⟩
  · intro k' hok
    by_cases hgets : ∃ rd, y.destination inst = .ok rd ∧ y.Supported k.regs
    · obtain ⟨rd, hrd, hsupported⟩ := hgets
      obtain ⟨base, heq⟩ := hdone rd hrd hsupported
      rw [heq] at hok
      cases hok
      have hmarked : y.Supported (k.regs.markRead base) := hsupported
      exact ⟨rd, _, hrd, rfl, fun hkept => held_deliver hrd hkept hmarked v⟩
    · obtain ⟨e, hrefused⟩ := refused hgets
      have he := hrefused k.memory
      rw [hok] at he
      cases he

/-- A load of what is mapped ends in the same way with every memory that holds the same there. -/
theorem of_resultOf_eq {m : AddressSpace} (ha : inst.address? k = some addr)
    (hk : k.memory.Mapped addr) (hm : m.Mapped addr) (hsymbols : m.symbol? = k.memory.symbol?)
    (hread : resultOf (AddressSpace.readNat addr y.count) k.memory =
      resultOf (AddressSpace.readNat addr y.count) m) :
    resultOf (y.handler inst) k = resultOf (y.handler inst) { k with memory := m } ∧
      stateAfter (y.handler inst) k =
        { stateAfter (y.handler inst) { k with memory := m } with memory := k.memory } := by
  by_cases hgets : ∃ rd, y.destination inst = .ok rd ∧ y.Supported k.regs
  · obtain ⟨rd, hrd, hsupported⟩ := hgets
    obtain ⟨base, hbase, heq⟩ := eq_of_operands k hrd hsupported ha
    have ha' : inst.address? { k with memory := m } = some addr := by
      rw [← ha, Instruction.address?, Instruction.address?, hsymbols]
    obtain ⟨base', hbase', heq'⟩ := eq_of_operands { k with memory := m } hrd hsupported ha'
    -- the base register is the same, so that the two harts differ in their memory alone
    rw [hbase] at hbase'
    cases hbase'
    have hload := Exec.load_of_mapped { k with regs := k.regs.markRead base } hk y.count
    have hload' := Exec.load_of_mapped
      { k with memory := m, regs := k.regs.markRead base } hm y.count
    rw [hread] at hload
    rw [resultOf, resultOf, stateAfter, stateAfter, heq, heq']
    cases hresult : resultOf (AddressSpace.readNat addr y.count) m with
    | ok v =>
      rw [hresult] at hload hload'
      rw [transfer, bind_of_ok hload, bind_of_ok hload']
      exact ⟨rfl, rfl⟩
    | error e =>
      rw [hresult] at hload hload'
      rw [transfer, bind_of_error hload, bind_of_error hload']
      exact ⟨rfl, rfl⟩
  · obtain ⟨e, hrefused⟩ := refused hgets
    have he : y.handler inst k = .error e k := hrefused k.memory
    rw [resultOf, resultOf, stateAfter, stateAfter, he, hrefused m]
    exact ⟨rfl, rfl⟩

end LoadOp

/-- The bytes of a store, read where they were written. -/
theorem StoreOp.readNat_of_eq_ok {x : StoreOp} {inst : Instruction} {h h' : Hart} {a b : Word}
    {count least : Nat} (hm : AddressSpace.Reachable least h.memory)
    (ha : inst.address? h = some a) (hok : x.handler inst h = .ok () h')
    (hle : a.toNat ≤ b.toNat) (hend : b.toNat + count ≤ a.toNat + x.count) (hcount : 0 < count) :
    ∃ i, x.source inst = .ok i ∧ AddressSpace.readNat b count h'.memory = .ok
      ((x.value h.regs i).extractLsb' (8 * (b.toNat - a.toNat)) (8 * count)).toNat h'.memory := by
  obtain ⟨i, v, hi, hwrite, hvalue⟩ := eq_ok ha hok
  have hin : b.toNat - a.toNat + count ≤ x.count := by omega
  refine ⟨i, hi, ?_⟩
  rw [AddressSpace.readNat_of_write hm hwrite hle hend hcount, toNat_bytes,
    ← mod_div_mod_of_le hin v, hvalue, mod_div_mod_of_le hin]

theorem LoadOp.count_pos (y : LoadOp) : 0 < y.count := by cases y <;> decide

/-- A load after a store that succeeded. If it lies inside of what was written, it succeeds if its
destination can be read off and the registers are wide enough for it, and if it succeeds it changes
registers only and its destination holds those bytes of the source of the store, extended. If it
begins where memory was mapped before the store and has no byte in common with what was written, it
ends as it would have ended before the store, in the same hart but for the memory. -/
theorem Exec.load_after_store (h h₁ k : Hart) (x : StoreOp) (y : LoadOp) (i j : Instruction)
    (f g : Handler) (a b : Word) (least : Nat)
    (hf : DispatchTable.standard.handler? x.mnemonic = some f)
    (hg : DispatchTable.standard.handler? y.mnemonic = some g)
    (hm : AddressSpace.Reachable least h.memory) (ha : i.address? h = some a)
    (hok : f i h = .ok () h₁) (hk : k.memory = h₁.memory) (hb : j.address? k = some b) :
    (a.toNat ≤ b.toNat → b.toNat + y.count ≤ a.toNat + x.count →
      ∃ s, x.source i = .ok s ∧
        (∀ rd, y.destination j = .ok rd → y.Supported k.regs → ∃ k', g j k = .ok () k') ∧
        ∀ k', g j k = .ok () k' → ∃ rd regs, y.destination j = .ok rd ∧ k' = { k with regs } ∧
          (y.Kept rd → y.held regs rd = y.extend
            ((x.value h.regs s).extractLsb' (8 * (b.toNat - a.toNat)) (8 * y.count)))) ∧
    (h.memory.Mapped b → b.toNat + y.count ≤ a.toNat ∨ a.toNat + x.count ≤ b.toNat →
      resultOf (g j) k = resultOf (g j) { k with memory := h.memory } ∧
        stateAfter (g j) k =
          { stateAfter (g j) { k with memory := h.memory } with memory := k.memory }) := by
  rw [StoreOp.handler?_eq, Option.some_inj] at hf
  rw [LoadOp.handler?_eq, Option.some_inj] at hg
  subst hf hg
  constructor
  · intro hle hend
    obtain ⟨s, hs, hread⟩ := StoreOp.readNat_of_eq_ok hm ha hok hle hend y.count_pos
    rw [← hk] at hread
    exact ⟨s, hs, LoadOp.of_readNat_eq_ok hb hread⟩
  · intro hmapped hapart
    obtain ⟨s, v, -, hwrite, -⟩ := StoreOp.eq_ok ha hok
    have hsymbols := symbol?_writeNat a x.count v h.memory
    obtain ⟨hmapped', hread⟩ := AddressSpace.readNat_of_apart hwrite hmapped hapart
    rw [stateAfter, hwrite] at hsymbols
    rw [← hk] at hsymbols hmapped' hread
    exact LoadOp.of_resultOf_eq hb hmapped' hmapped hsymbols.symm hread

/-- A hart with a word in one register, a signaling NaN in another, and the address of some data. -/
def Hart.holding : Hart :=
  { memory := .sixteenBytes
    regs := {
      integers := (({} : IntegerRegisters).write 5 0x80FF7F01).write 6 0x1004
      floats := ({} : FloatRegisters).writeBits 8 0x7FF0000000000001 } }

/-- The upper half of a word that was stored comes with its sign, and what lies behind it is as it
was before. A signaling NaN comes back bit for bit. -/
theorem Exec.load_after_store_of_holding :
    (∃ h₁, StoreOp.sw.handler (.structured "sw" ["t0", "t1", "0"]) Hart.holding = .ok () h₁ ∧
      (∃ k', LoadOp.lh.handler (.structured "lh" ["t2", "t1", "2"]) h₁ = .ok () k' ∧
        (k'.regs.peek 7).setWidth 64 = (0xFFFF80FF : BitVec 64)) ∧
      resultOf (LoadOp.lbu.handler (.structured "lbu" ["t2", "t1", "8"])) h₁ =
        resultOf (LoadOp.lbu.handler (.structured "lbu" ["t2", "t1", "8"]))
          { h₁ with memory := .sixteenBytes }) ∧
    ∃ h₁, StoreOp.fsd.handler (.structured "fsd" ["fs0", "t1", "0"]) Hart.holding = .ok () h₁ ∧
      ∃ k', LoadOp.fld.handler (.structured "fld" ["ft0", "t1", "0"]) h₁ = .ok () k' ∧
        k'.regs.floats.readBits 0 = 0x7FF0000000000001 := by
  have hm : AddressSpace.Reachable 0 Hart.holding.memory := AddressSpace.reachable_sixteenBytes
  refine ⟨⟨_, rfl, ?_, ?_⟩, _, rfl, ?_⟩
  · obtain ⟨s, hs, hdone, hloaded⟩ := (load_after_store Hart.holding _ _ .sw .lh
      (.structured "sw" ["t0", "t1", "0"]) (.structured "lh" ["t2", "t1", "2"]) _ _
      0x1004 0x1006 0 (StoreOp.handler?_eq _)
      (LoadOp.handler?_eq _) hm rfl rfl rfl rfl).1 (by decide) (by decide)
    cases hs
    obtain ⟨k', hok⟩ := hdone 7 rfl (by decide)
    obtain ⟨rd, regs, hrd, rfl, hheld⟩ := hloaded k' hok
    cases hrd
    have hkept : LoadOp.lh.Kept 7 := show 7 ≠ Register.zero by decide
    exact ⟨_, hok, (hheld hkept).trans (by decide +kernel)⟩
  · have hmapped : Hart.holding.memory.Mapped 0x100C := ⟨_, rfl⟩
    exact ((load_after_store Hart.holding _ _ .sw .lbu
      (.structured "sw" ["t0", "t1", "0"]) (.structured "lbu" ["t2", "t1", "8"]) _ _
      0x1004 0x100C 0 (StoreOp.handler?_eq _)
      (LoadOp.handler?_eq _) hm rfl rfl rfl rfl).2 hmapped (by decide)).1
  · obtain ⟨s, hs, hdone, hloaded⟩ := (load_after_store Hart.holding _ _ .fsd .fld
      (.structured "fsd" ["fs0", "t1", "0"]) (.structured "fld" ["ft0", "t1", "0"]) _ _
      0x1004 0x1004 0 (StoreOp.handler?_eq _)
      (LoadOp.handler?_eq _) hm rfl rfl rfl rfl).1 (by decide) (by decide)
    cases hs
    obtain ⟨k', hok⟩ := hdone 0 rfl (by decide)
    obtain ⟨rd, regs, hrd, rfl, hheld⟩ := hloaded k' hok
    cases hrd
    exact ⟨_, hok, (hheld trivial).trans (by decide +kernel)⟩

end Riscv32
