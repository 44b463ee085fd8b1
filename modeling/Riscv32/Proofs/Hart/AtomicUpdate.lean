import Riscv32.Proofs.Hart.Executable
import Riscv32.Proofs.Hart.Reservation
import Riscv32.Proofs.Instruction.Operand
import Riscv32.Proofs.Memory.Update

/-!
# Atomic updates

An atomic update reads a word, writes an operation on it and a register back, and leaves the old
word in its destination. Address and operand are read before anything is written, so it does not
matter which of its registers coincide. All operations but the swap commute with themselves: two
updates of a word with the same operands give the same word in either order. The operands are the
same unless one of the updates takes as its operand what the other has left in its destination.

## Main definitions

* `UpdateOp` — the operations, with the mnemonic and the meaning of each.
* `UpdateOp.Updated` — what an update does to a hart.
* `Instruction.Asks inst h addr v` — the address and the operand that an update takes.
* `Instruction.Spares i j` — `i` writes no register that `j` reads.

## Main statements

* `Exec.readModifyWrite_eq_ok` and `Exec.readModifyWrite_of_asks`, an update in terms of memory.
* `UpdateOp.combine_right_comm`, operations in either order.
* `Exec.update_exact`, all of the above for the instructions.
* `Exec.not_update_comm`, where the order of two updates matters.
-/
namespace Riscv32

/-! ## The operations -/

/-- The operations of the atomic updates. -/
inductive UpdateOp
  | swap
  | add
  | xor
  | and
  | or
  | min
  | max
  | minu
  | maxu
  deriving DecidableEq

namespace UpdateOp

/-- The name of the instruction. -/
def mnemonic : UpdateOp → String
  | swap => "amoswap.w"
  | add => "amoadd.w"
  | xor => "amoxor.w"
  | and => "amoand.w"
  | or => "amoor.w"
  | min => "amomin.w"
  | max => "amomax.w"
  | minu => "amominu.w"
  | maxu => "amomaxu.w"

/-- The word that is left of an old word and an operand. -/
def combine : UpdateOp → Word → Word → Word
  | swap, _, v => v
  | add, w, v => BitVec.ofNat 32 (w.toNat + v.toNat)
  | xor, w, v => w ^^^ v
  | and, w, v => w &&& v
  | or, w, v => w ||| v
  | min, w, v => BitVec.ofInt 32 (Min.min w.toInt v.toInt)
  | max, w, v => BitVec.ofInt 32 (Max.max w.toInt v.toInt)
  | minu, w, v => BitVec.ofNat 32 (Min.min w.toNat v.toNat)
  | maxu, w, v => BitVec.ofNat 32 (Max.max w.toNat v.toNat)

/-- The operation as the instruction carries it out. -/
def compute : UpdateOp → Word → Word → Word
  | swap => fun _ v => v
  | add => (· + ·)
  | xor => (· ^^^ ·)
  | and => (· &&& ·)
  | or => (· ||| ·)
  | min => Exec.lesser BitVec.slt
  | max => Exec.greater BitVec.slt
  | minu => Exec.lesser BitVec.ult
  | maxu => Exec.greater BitVec.ult

theorem toInt_lesser (w v : Word) :
    (Exec.lesser BitVec.slt w v).toInt = Min.min w.toInt v.toInt := by
  simp only [Exec.lesser, BitVec.slt_eq_decide, decide_eq_true_eq]
  split <;> omega

theorem toInt_greater (w v : Word) :
    (Exec.greater BitVec.slt w v).toInt = Max.max w.toInt v.toInt := by
  simp only [Exec.greater, BitVec.slt_eq_decide, decide_eq_true_eq]
  split <;> omega

theorem toNat_lesser (w v : Word) :
    (Exec.lesser BitVec.ult w v).toNat = Min.min w.toNat v.toNat := by
  simp only [Exec.lesser, BitVec.ult_eq_decide, decide_eq_true_eq]
  split <;> omega

theorem toNat_greater (w v : Word) :
    (Exec.greater BitVec.ult w v).toNat = Max.max w.toNat v.toNat := by
  simp only [Exec.greater, BitVec.ult_eq_decide, decide_eq_true_eq]
  split <;> omega

theorem compute_eq (o : UpdateOp) (w v : Word) : o.compute w v = o.combine w v := by
  cases o with
  | swap | xor | and | or => rfl
  | add => exact BitVec.eq_of_toNat_eq (by simp [compute, combine])
  | min => rw [combine, ← toInt_lesser, BitVec.ofInt_toInt, compute]
  | max => rw [combine, ← toInt_greater, BitVec.ofInt_toInt, compute]
  | minu => rw [combine, ← toNat_lesser, BitVec.ofNat_toNat, BitVec.setWidth_eq, compute]
  | maxu => rw [combine, ← toNat_greater, BitVec.ofNat_toNat, BitVec.setWidth_eq, compute]

/-- Operands may come in either order, unless the operation forgets the old word. -/
theorem combine_right_comm {o : UpdateOp} (ho : o ≠ swap) (w a b : Word) :
    o.combine (o.combine w a) b = o.combine (o.combine w b) a := by
  simp only [← compute_eq]
  cases o with
  | swap => exact absurd rfl ho
  | add => simp only [compute, BitVec.add_assoc, BitVec.add_comm a]
  | xor => simp only [compute, BitVec.xor_assoc, BitVec.xor_comm a]
  | and => simp only [compute, BitVec.and_assoc, BitVec.and_comm a]
  | or => simp only [compute, BitVec.or_assoc, BitVec.or_comm a]
  | min =>
    apply BitVec.eq_of_toInt_eq
    simp only [compute, toInt_lesser]
    omega
  | max =>
    apply BitVec.eq_of_toInt_eq
    simp only [compute, toInt_greater]
    omega
  | minu =>
    apply BitVec.eq_of_toNat_eq
    simp only [compute, toNat_lesser]
    omega
  | maxu =>
    apply BitVec.eq_of_toNat_eq
    simp only [compute, toNat_greater]
    omega

theorem handler?_eq (o : UpdateOp) : DispatchTable.standard.handler? o.mnemonic =
    some (Exec.readModifyWrite o.compute) := by
  have hmem : (o.mnemonic, Exec.readModifyWrite o.compute) ∈ InstructionSet.atomic.handlers := by
    cases o <;> simp [InstructionSet.atomic, Exec.atomicHandlers, mnemonic, compute]
  exact DispatchTable.handler?_of_mem DispatchTable.build_standard
    (by simp [InstructionSet.standard]) hmem

end UpdateOp

/-! ## Reading, changing and writing a word -/

/-- The address and the operand that an update takes from the registers. -/
def Instruction.Asks (inst : Instruction) (h : Hart) (addr v : Word) : Prop :=
  ∃ base source, inst.register 1 = .ok base ∧ inst.register 2 = .ok source ∧
    h.regs.peek base = addr ∧ h.regs.peek source = v

theorem Instruction.Asks.unique {inst : Instruction} {h : Hart} {addr addr' v v' : Word}
    (hasks : inst.Asks h addr v) (hasks' : inst.Asks h addr' v') : addr = addr' ∧ v = v' := by
  obtain ⟨base, source, hbase, hsource, rfl, rfl⟩ := hasks
  obtain ⟨base', source', hbase', hsource', rfl, rfl⟩ := hasks'
  cases hbase.symm.trans hbase'
  cases hsource.symm.trans hsource'
  exact ⟨rfl, rfl⟩

namespace Exec

variable {inst : Instruction} {h h' : Hart} {op : Word → Word → Word} {addr a : Word}
  {rd v : Nat} {m m' : AddressSpace}

/-- The registers after an update that found the word `w`. -/
def registersAfter (f : RegisterFile) (rd base source : Nat) (w : Word) : RegisterFile :=
  ((f.markRead base).markRead source).write rd w

/-- An update of an aligned word that can be read and written back. -/
theorem readModifyWrite_of_asks (hrd : inst.register 0 = .ok rd) (hasks : inst.Asks h addr a)
    (ha : addr.isAligned = true) (hread : AddressSpace.readNat addr 4 h.memory = .ok v m)
    (hwrite : AddressSpace.writeNat addr 4 (op (BitVec.ofNat 32 v) a).toNat m = .ok () m') :
    ∃ h', readModifyWrite op inst h = .ok () h' ∧ h'.memory = m' := by
  obtain ⟨base, source, hbase, hsource, rfl, rfl⟩ := hasks
  have haddr := alignedAddress_eq .storeAddressMisaligned hbase h
  rw [if_pos ha] at haddr
  rw [readModifyWrite, bind_of_ok (operand_of_ok hrd h), bind_of_ok haddr,
    bind_of_ok (operand_of_ok hsource _), readX_bind]
  have hload : load (h.regs.peek base) 4
      { h with regs := (h.regs.markRead base).markRead source } =
        .ok v { h with regs := (h.regs.markRead base).markRead source, memory := m } := by
    simp only [load, access, hread]
  have hstore : store (h.regs.peek base) 4 (op (BitVec.ofNat 32 v) (h.regs.peek source)).toNat
      { h with regs := (h.regs.markRead base).markRead source, memory := m } =
        .ok () { h with regs := (h.regs.markRead base).markRead source, memory := m' } := by
    simp only [store, access, hwrite]
  exact ⟨_, (bind_of_ok hload).trans (bind_of_ok hstore), rfl⟩

/-- An update that succeeds has read an aligned word and written it back. -/
theorem readModifyWrite_eq_ok (hok : readModifyWrite op inst h = .ok () h') :
    ∃ rd base source v m,
      inst.register 0 = .ok rd ∧ inst.register 1 = .ok base ∧ inst.register 2 = .ok source ∧
      (h.regs.peek base).isAligned = true ∧
      AddressSpace.readNat (h.regs.peek base) 4 h.memory = .ok v m ∧
      AddressSpace.writeNat (h.regs.peek base) 4
        (op (BitVec.ofNat 32 v) (h.regs.peek source)).toNat m = .ok () h'.memory ∧
      h' = { h with
        memory := h'.memory
        regs := registersAfter h.regs rd base source (BitVec.ofNat 32 v) } := by
  obtain ⟨rd, k, hdestination, hrest⟩ := bind_eq_ok hok
  obtain ⟨hrd, hsame⟩ := operand_eq_ok hdestination
  rw [hsame] at hrest
  obtain ⟨addr, _, haddr, hrest⟩ := bind_eq_ok hrest
  obtain ⟨base, _, hbase, -⟩ := bind_eq_ok haddr
  have hbase := (operand_eq_ok hbase).1
  rw [alignedAddress_eq _ hbase] at haddr
  split at haddr
  case isFalse => cases haddr
  case isTrue ha =>
    cases haddr
    obtain ⟨source, _, hoperand, hrest⟩ := bind_eq_ok hrest
    obtain ⟨hsource, hsame⟩ := operand_eq_ok hoperand
    rw [hsame, readX_bind] at hrest
    obtain ⟨v, _, hload, hrest⟩ := bind_eq_ok hrest
    obtain ⟨m, hread, rfl⟩ := access_eq_ok hload
    obtain ⟨_, _, hstore, hlast⟩ := bind_eq_ok hrest
    obtain ⟨m', hwrite, rfl⟩ := access_eq_ok hstore
    cases hlast
    exact ⟨rd, base, source, v, m, hrd, hbase, hsource, ha, hread, hwrite, rfl⟩

end Exec

/-! ## One update -/

namespace UpdateOp

open AddressSpace Exec

variable {o : UpdateOp} {inst i j : Instruction} {h h' h₁ h₂ k₁ k₂ : Hart}
  {addr a b old : Word} {rd base source : Nat}

/-- What an update does to a hart: the word at the address changes, the destination holds what it
was, and the only other things to change are the marks of the registers read and written last. -/
structure Updated (o : UpdateOp) (inst : Instruction) (h h' : Hart) (rd base source : Nat)
    (old : Word) : Prop where
  destination : inst.register 0 = .ok rd
  address : inst.register 1 = .ok base
  operand : inst.register 2 = .ok source
  aligned : 4 ∣ (h.regs.peek base).toNat
  memory : Updates (h.regs.peek base) old (o.combine old (h.regs.peek source)) h.memory h'.memory
  registers : ∀ r, h'.regs.peek r = if r = rd ∧ r ≠ Register.zero then old else h.regs.peek r
  others : ∃ integers lastRead lastWritten, h' = { h with
    memory := h'.memory, regs := { h.regs with integers, lastRead, lastWritten } }

theorem peek_registersAfter (f : RegisterFile) (hrd : rd < Register.count) (base source : Nat)
    (w : Word) (r : Nat) : (registersAfter f rd base source w).peek r =
      if r = rd ∧ r ≠ Register.zero then w else f.peek r := by
  have hiff : (IntegerRegisters.writable rd = true ∧ rd = r) ↔ (r = rd ∧ r ≠ Register.zero) := by
    simp only [IntegerRegisters.writable, Bool.and_eq_true, decide_eq_true_eq, Register.zero]
    omega
  rw [registersAfter, RegisterFile.peek_write, if_congr hiff rfl rfl]
  rfl

theorem exists_registersAfter (f : RegisterFile) (rd base source : Nat) (w : Word) :
    ∃ integers lastRead lastWritten,
      registersAfter f rd base source w = { f with integers, lastRead, lastWritten } := by
  rw [registersAfter, RegisterFile.write]
  split
  · exact ⟨_, _, _, rfl⟩
  · exact ⟨_, _, _, rfl⟩

/-- An update that succeeds. -/
theorem updated_of_ok (hok : readModifyWrite o.compute inst h = .ok () h') :
    ∃ rd base source old, o.Updated inst h h' rd base source old := by
  obtain ⟨rd, base, source, v, m, hrd, hbase, hsource, ha, hread, hwrite, hsame⟩ :=
    readModifyWrite_eq_ok hok
  rw [compute_eq] at hwrite
  have hregs : h'.regs = registersAfter h.regs rd base source (BitVec.ofNat 32 v) :=
    congrArg Hart.regs hsame
  refine ⟨rd, base, source, BitVec.ofNat 32 v, hrd, hbase, hsource, ?_, ?_, ?_, ?_⟩
  · exact Nat.dvd_of_mod_eq_zero ((Word.isAligned_iff _).1 ha)
  · exact updates_of_readNat_of_writeNat hread hwrite
  · intro r
    rw [hregs]
    exact peek_registersAfter h.regs (Instruction.register_lt hrd) base source _ r
  · obtain ⟨integers, lastRead, lastWritten, hfile⟩ :=
      exists_registersAfter h.regs rd base source (BitVec.ofNat 32 v)
    rw [hfile] at hsame
    exact ⟨_, _, _, hsame⟩

end UpdateOp

/-! ## Two updates -/

/-- The first instruction writes no register that the second one reads. -/
def Instruction.Spares (i j : Instruction) : Prop :=
  ∀ rd, i.register 0 = .ok rd → rd ≠ Register.zero →
    j.register 1 ≠ .ok rd ∧ j.register 2 ≠ .ok rd

namespace UpdateOp

open AddressSpace Exec

variable {o : UpdateOp} {inst i j : Instruction} {h h' h₁ h₂ k₁ k₂ : Hart} {addr a b v : Word}

/-- The word that an update leaves at the address it asks for. -/
theorem word?_of_ok (hok : readModifyWrite o.compute inst h = .ok () h')
    (hasks : inst.Asks h addr v) : ∃ w, h.memory.word? addr = some w ∧
      h'.memory.word? addr = some (o.combine w v) := by
  obtain ⟨rd, base, source, old, hupdated⟩ := updated_of_ok hok
  obtain ⟨rfl, rfl⟩ :=
    hasks.unique ⟨base, source, hupdated.address, hupdated.operand, rfl, rfl⟩
  exact ⟨old, hupdated.memory.before, hupdated.memory.after⟩

/-- An update does not change what another one asks for, if it writes none of its registers. -/
theorem asks_of_spares (hok : readModifyWrite o.compute i h = .ok () h₁) (hspares : i.Spares j)
    (hasks : j.Asks h addr v) : j.Asks h₁ addr v := by
  obtain ⟨rd, _, _, old, hupdated⟩ := updated_of_ok hok
  obtain ⟨base, source, hbase, hsource, rfl, rfl⟩ := hasks
  refine ⟨base, source, hbase, hsource, ?_, ?_⟩
  · rw [hupdated.registers, if_neg]
    rintro ⟨rfl, hne⟩
    exact (hspares _ hupdated.destination hne).1 hbase
  · rw [hupdated.registers, if_neg]
    rintro ⟨rfl, hne⟩
    exact (hspares _ hupdated.destination hne).2 hsource

/-- Two updates of a word with the same operands leave the same word in either order. -/
theorem word?_comm (ho : o ≠ swap) (hi : i.Asks h addr a) (hj₁ : j.Asks h₁ addr b)
    (hj : j.Asks h addr b) (hi₁ : i.Asks k₁ addr a)
    (hh₁ : readModifyWrite o.compute i h = .ok () h₁)
    (hh₂ : readModifyWrite o.compute j h₁ = .ok () h₂)
    (hk₁ : readModifyWrite o.compute j h = .ok () k₁)
    (hk₂ : readModifyWrite o.compute i k₁ = .ok () k₂) :
    h₂.memory.word? addr = k₂.memory.word? addr := by
  obtain ⟨w, hw, hw₁⟩ := word?_of_ok hh₁ hi
  obtain ⟨w₁, hmiddle, hw₂⟩ := word?_of_ok hh₂ hj₁
  cases hw₁.symm.trans hmiddle
  obtain ⟨w', hw', hx₁⟩ := word?_of_ok hk₁ hj
  cases hw.symm.trans hw'
  obtain ⟨x₁, hmiddle', hx₂⟩ := word?_of_ok hk₂ hi₁
  cases hx₁.symm.trans hmiddle'
  rw [hw₂, hx₂, combine_right_comm ho]

/-- Two updates of a word that succeed in one order succeed in the other order too, if the second
one spares the registers of the first. -/
theorem exists_of_spares (hi : i.Asks h addr a) (hj : j.Asks h addr b) (hspares : j.Spares i)
    (hh₁ : readModifyWrite o.compute i h = .ok () h₁)
    (hh₂ : readModifyWrite o.compute j h₁ = .ok () h₂) :
    ∃ k₁ k₂, readModifyWrite o.compute j h = .ok () k₁ ∧
      readModifyWrite o.compute i k₁ = .ok () k₂ := by
  obtain ⟨rd, base, source, v, m, hrd, hbase, hsource, ha, hread, hwrite, -⟩ :=
    readModifyWrite_eq_ok hh₁
  obtain ⟨rd', -, -, -, -, hrd', -⟩ := readModifyWrite_eq_ok hh₂
  obtain ⟨haddr, -⟩ := hi.unique ⟨base, source, hbase, hsource, rfl, rfl⟩
  rw [← haddr] at ha hread hwrite
  -- the second update finds what the first one found, and can write because the first one could
  obtain ⟨m₁, hwrite₁, ⟨x, hread₁⟩, hwritable⟩ := exists_writeNat_of_writeNat hwrite
    (o.compute (BitVec.ofNat 32 v) b).toNat
  obtain ⟨k₁, hk₁, rfl⟩ := readModifyWrite_of_asks hrd' hj ha hread hwrite₁
  -- and the other way round
  obtain ⟨m₂, hwrite₂⟩ := hwritable (o.compute (BitVec.ofNat 32 x) a).toNat
  obtain ⟨k₂, hk₂, -⟩ :=
    readModifyWrite_of_asks hrd (asks_of_spares hk₁ hspares hi) ha hread₁ hwrite₂
  exact ⟨k₁, k₂, hk₁, hk₂⟩

end UpdateOp

/-- An atomic update that succeeds makes of the word at the aligned address in its second register
the operation on that word and its third register, leaves the old word in its first register unless
that is register 0, and changes nothing else: no other register, no control register, no reservation
and no byte. Two updates of one word with the same operation, which may not be the swap, leave the
same word in either order if each of them takes the same operand in both. If neither writes a
register that the other reads, this is so, and then both orders succeed if one does. -/
theorem Exec.update_exact (o : UpdateOp) (f : Handler)
    (hf : DispatchTable.standard.handler? o.mnemonic = some f) :
    (∀ inst h h', f inst h = .ok () h' →
      ∃ rd base source old, o.Updated inst h h' rd base source old) ∧
    (o ≠ .swap →
      (∀ i j h h₁ h₂ k₁ k₂ addr a b, f i h = .ok () h₁ → f j h₁ = .ok () h₂ →
        f j h = .ok () k₁ → f i k₁ = .ok () k₂ →
        i.Asks h addr a → j.Asks h₁ addr b → j.Asks h addr b → i.Asks k₁ addr a →
        h₂.memory.word? addr = k₂.memory.word? addr) ∧
      ∀ i j h h₁ h₂ addr a b, f i h = .ok () h₁ → f j h₁ = .ok () h₂ →
        i.Asks h addr a → j.Asks h addr b → i.Spares j → j.Spares i →
        ∃ k₁ k₂, f j h = .ok () k₁ ∧ f i k₁ = .ok () k₂ ∧
          h₂.memory.word? addr = k₂.memory.word? addr) := by
  rw [UpdateOp.handler?_eq, Option.some_inj] at hf
  subst hf
  refine ⟨fun inst h h' hok => UpdateOp.updated_of_ok hok, fun ho => ⟨?same, ?spared⟩⟩
  case same =>
    intro i j h h₁ h₂ k₁ k₂ addr a b hh₁ hh₂ hk₁ hk₂ hi hj₁ hj hi₁
    exact UpdateOp.word?_comm ho hi hj₁ hj hi₁ hh₁ hh₂ hk₁ hk₂
  case spared =>
    intro i j h h₁ h₂ addr a b hh₁ hh₂ hi hj hij hji
    obtain ⟨k₁, k₂, hk₁, hk₂⟩ := UpdateOp.exists_of_spares hi hj hji hh₁ hh₂
    have hj₁ := UpdateOp.asks_of_spares hh₁ hij hj
    have hi₁ := UpdateOp.asks_of_spares hk₁ hji hi
    exact ⟨k₁, k₂, hk₁, hk₂, UpdateOp.word?_comm ho hi hj₁ hj hi₁ hh₁ hh₂ hk₁ hk₂⟩

/-- A hart with the address of some data in register 6 and numbers in two other registers. -/
def Hart.updating : Hart :=
  { memory := .sixteenBytes
    regs := { integers := ((({} : IntegerRegisters).write 5 1).write 6 0x1004).write 7 2 } }

/-- An addition to a word in memory, of a register and into a register. -/
def addition (rd source : String) : Instruction := .structured "amoadd.w" [rd, "t1", source]

theorem spares_addition {rd rd' source source' : String} {d s : Nat}
    (hrd : (addition rd source).register 0 = .ok d)
    (hsource : (addition rd' source').register 2 = .ok s) (hbase : d ≠ 6) (hne : d ≠ s) :
    (addition rd source).Spares (addition rd' source') := by
  intro r hr _
  cases hrd.symm.trans hr
  have hsix : (addition rd' source').register 1 = .ok 6 := rfl
  rw [hsix, hsource]
  exact ⟨fun h => hbase (Except.ok.inj h).symm, fun h => hne (Except.ok.inj h).symm⟩

/-- One register is destination, address and operand at once: the word, which was zero, becomes the
address, and the register becomes zero. And two additions that are independent of each other. -/
theorem Exec.update_exact_of_updating :
    (∃ h' rd base source old,
      readModifyWrite UpdateOp.add.compute (addition "t1" "t1") Hart.updating = .ok () h' ∧
        UpdateOp.add.Updated (addition "t1" "t1") Hart.updating h' rd base source old) ∧
    ∃ h₁ h₂ k₁ k₂,
      readModifyWrite UpdateOp.add.compute (addition "t3" "t0") Hart.updating = .ok () h₁ ∧
      readModifyWrite UpdateOp.add.compute (addition "t4" "t2") h₁ = .ok () h₂ ∧
      readModifyWrite UpdateOp.add.compute (addition "t4" "t2") Hart.updating = .ok () k₁ ∧
      readModifyWrite UpdateOp.add.compute (addition "t3" "t0") k₁ = .ok () k₂ ∧
      h₂.memory.word? 0x1004 = k₂.memory.word? 0x1004 := by
  obtain ⟨hone, htwo⟩ := update_exact .add _ (UpdateOp.handler?_eq .add)
  constructor
  · obtain ⟨rd, base, source, old, hupdated⟩ := hone (addition "t1" "t1") Hart.updating _ rfl
    exact ⟨_, rd, base, source, old, rfl, hupdated⟩
  · obtain ⟨k₁, k₂, hk₁, hk₂, hsame⟩ := (htwo (by decide)).2 (addition "t3" "t0")
      (addition "t4" "t2") Hart.updating _ _ 0x1004 1 2 rfl rfl ⟨6, 5, rfl, rfl, rfl, rfl⟩
      ⟨6, 7, rfl, rfl, rfl, rfl⟩
      (spares_addition (d := 28) (s := 7) rfl rfl (by decide) (by decide))
      (spares_addition (d := 29) (s := 5) rfl rfl (by decide) (by decide))
    exact ⟨_, _, k₁, k₂, rfl, rfl, hk₁, hk₂, hsame⟩

/-- The order matters if an update takes as its operand what the other one left in its destination:
not all updates of one word with one operation leave the same word in either order. -/
theorem Exec.not_update_comm :
    ¬ ∀ (o : UpdateOp) (f : Handler) (i j : Instruction) (h h₁ h₂ k₁ k₂ : Hart) (addr : Word),
      o ≠ .swap → DispatchTable.standard.handler? o.mnemonic = some f →
      (∃ v, i.Asks h addr v) → (∃ v, j.Asks h₁ addr v) →
      (∃ v, j.Asks h addr v) → (∃ v, i.Asks k₁ addr v) →
      f i h = .ok () h₁ → f j h₁ = .ok () h₂ → f j h = .ok () k₁ → f i k₁ = .ok () k₂ →
      h₂.memory.word? addr = k₂.memory.word? addr := by
  intro hall
  have hsame := hall .add _ (addition "t0" "t2") (addition "t3" "t0") Hart.updating _ _ _ _ 0x1004
    (by decide) (UpdateOp.handler?_eq .add) ⟨_, 6, 7, rfl, rfl, rfl, rfl⟩
    ⟨_, 6, 5, rfl, rfl, rfl, rfl⟩ ⟨_, 6, 5, rfl, rfl, rfl, rfl⟩ ⟨_, 6, 7, rfl, rfl, rfl, rfl⟩
    rfl rfl rfl rfl
  exact absurd hsame (by decide +kernel)

end Riscv32
