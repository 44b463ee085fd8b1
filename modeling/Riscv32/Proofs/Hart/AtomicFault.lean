import Riscv32.Proofs.Hart.Reservation

/-!
# Faults of the atomic instructions

A conditional store and a read-modify-write are stores, and the architecture has them raise the
faults of a store. The instructions raise these for an address that is no multiple of four and for
memory that can be read but not be written. A read-modify-write loads first, though. If its word
cannot be read it fails there, as a load, and the trap is one of a load. That is the only exception.

## Main definitions

* `AddressSpace.Readable m addr size` — a read of the bytes succeeds.
* `Trap.storeFaults addr` — the faults of a store to an address.

## Main statements

* `AddressSpace.trap_of_read_error` and `AddressSpace.trap_of_write_error`, the traps of a failed
  access.
* `Exec.atomic_storeFault_iff`, when an atomic instruction that fails raises a fault of a store.
-/
namespace Riscv32

/-! ## The trap of an access -/

namespace Section

variable {s : Section} {addr : Word} {size : Nat} {data : List Byte} {access : AccessKind}
  {e : MemoryError}

theorem trap_of_offset_error (h : s.offset addr size access = .error e) :
    e.trap = .accessFault access addr := by
  unfold offset at h
  split at h
  · cases h
  · cases h
    rfl

theorem trap_of_read_error (h : s.read addr size = .error e) : e.trap = .loadAccessFault addr := by
  unfold read at h
  split at h
  case h_1 hoffset =>
    cases h
    exact trap_of_offset_error hoffset
  case h_2 => cases h
  case h_3 =>
    cases h
    rfl

theorem trap_of_write_error (h : s.write addr data = .error e) :
    e.trap = .storeAccessFault addr := by
  unfold write at h
  split at h
  case isTrue =>
    cases h
    rfl
  case isFalse =>
    split at h
    case h_1 hoffset =>
      cases h
      exact trap_of_offset_error hoffset
    case h_2 => cases h
    case h_3 =>
      cases h
      rfl

end Section

namespace AddressSpace

variable {m m' : AddressSpace} {addr : Word} {size : Nat} {data : List Byte} {access : AccessKind}
  {e : MemoryError}

theorem trap_of_resolve_error (h : m.resolve addr size access = .error e) :
    e.trap = .accessFault access addr := by
  unfold resolve at h
  split at h
  · cases h
  · split at h
    · cases h
    · cases h
      rfl

/-- A read that fails is a fault of a load, whatever the reason. -/
theorem trap_of_read_error (h : AddressSpace.read addr size m = .error e m') :
    e.trap = .loadAccessFault addr := by
  unfold AddressSpace.read at h
  split at h
  case h_1 hresolve =>
    cases h
    exact trap_of_resolve_error hresolve
  case h_2 =>
    split at h
    case h_1 hread =>
      cases h
      exact Section.trap_of_read_error hread
    case h_2 => cases h

/-- A write that fails is a fault of a store, whatever the reason. -/
theorem trap_of_write_error (h : AddressSpace.write addr data m = .error e m') :
    e.trap = .storeAccessFault addr := by
  unfold AddressSpace.write at h
  split at h
  case h_1 hresolve =>
    cases h
    exact trap_of_resolve_error hresolve
  case h_2 =>
    split at h
    case h_1 hwrite =>
      cases h
      exact Section.trap_of_write_error hwrite
    case h_2 => cases h

/-- A read of the bytes succeeds. -/
def Readable (m : AddressSpace) (addr : Word) (size : Nat) : Prop :=
  ∃ bytes m', AddressSpace.read addr size m = .ok bytes m'

end AddressSpace

/-- The faults of a store to an address. -/
def Trap.storeFaults (addr : Word) : List Trap :=
  [.storeAddressMisaligned addr, .storeAccessFault addr]

theorem Trap.loadAccessFault_not_mem (a addr : Word) :
    Trap.loadAccessFault a ∉ Trap.storeFaults addr := by
  simp [storeFaults]

/-! ## Instructions -/

namespace Exec

variable {inst : Instruction} {handler : Handler} {k k' : Hart} {rd base source count v : Nat}
  {addr : Word} {e : ExecError} {op : Word → Word → Word}

/-- A load that fails is a read of memory that fails. -/
theorem load_eq_error (he : load addr count k = .error e k') :
    ¬ k.memory.Readable addr count ∧
      ∃ cause, e = .memory cause ∧ cause.trap = .loadAccessFault addr := by
  obtain ⟨cause, m, hread, rfl, -⟩ := access_eq_error he
  have hread := AddressSpace.readNat_eq_error hread
  refine ⟨?_, cause, rfl, AddressSpace.trap_of_read_error hread⟩
  rintro ⟨bytes, m', hok⟩
  rw [hread] at hok
  cases hok

theorem readable_of_load (hok : load addr count k = .ok v k') : k.memory.Readable addr count := by
  obtain ⟨m, hread, -⟩ := access_eq_ok hok
  obtain ⟨bytes, hread, -⟩ := AddressSpace.readNat_eq_ok hread
  exact ⟨bytes, m, hread⟩

theorem store_eq_error (he : store addr count v k = .error e k') :
    ∃ cause, e = .memory cause ∧ cause.trap = .storeAccessFault addr := by
  obtain ⟨cause, m, hwrite, rfl, -⟩ := access_eq_error he
  exact ⟨cause, rfl, AddressSpace.trap_of_write_error hwrite⟩

/-- A read-modify-write of an aligned word fails where it loads, if the word cannot be read, and
else where it stores. -/
theorem readModifyWrite_eq_error (hrd : inst.register 0 = .ok rd)
    (hbase : inst.register 1 = .ok base) (hsource : inst.register 2 = .ok source)
    (ha : (k.regs.peek base).isAligned = true) (he : readModifyWrite op inst k = .error e k') :
    ∃ cause, e = .memory cause ∧
      (k.memory.Readable (k.regs.peek base) 4 → cause.trap = .storeAccessFault (k.regs.peek base)) ∧
      (¬ k.memory.Readable (k.regs.peek base) 4 →
        cause.trap = .loadAccessFault (k.regs.peek base)) := by
  have haddr := alignedAddress_eq .storeAddressMisaligned hbase k
  rw [if_pos ha] at haddr
  rw [readModifyWrite, bind_of_ok (operand_of_ok hrd k), bind_of_ok haddr,
    bind_of_ok (operand_of_ok hsource _)] at he
  change (load (k.regs.peek base) 4 >>= _) { k with
    regs := (k.regs.markRead base).markRead source } = _ at he
  rcases bind_eq_error he with hload | ⟨old, k₁, hload, hrest⟩
  · obtain ⟨hread, cause, rfl, htrap⟩ := load_eq_error hload
    exact ⟨cause, rfl, fun h => absurd h hread, fun _ => htrap⟩
  · have hread := readable_of_load hload
    rcases bind_eq_error hrest with hstore | ⟨_, k₂, -, hlast⟩
    · obtain ⟨cause, rfl, htrap⟩ := store_eq_error hstore
      exact ⟨cause, rfl, fun _ => htrap, fun h => absurd hread h⟩
    · cases hlast

/-- A conditional store of an aligned word fails only where it stores. -/
theorem storeConditional_eq_error (hrd : inst.register 0 = .ok rd)
    (hbase : inst.register 1 = .ok base) (hsource : inst.register 2 = .ok source)
    (ha : (k.regs.peek base).isAligned = true) (he : storeConditional inst k = .error e k') :
    ∃ cause, e = .memory cause ∧ cause.trap = .storeAccessFault (k.regs.peek base) := by
  rw [storeConditional_eq hrd hbase hsource ha] at he
  split at he
  case isTrue =>
    split at he
    case h_1 => cases he
    case h_2 hwrite =>
      cases he
      exact ⟨_, rfl, AddressSpace.trap_of_write_error hwrite⟩
  case isFalse => cases he

/-- An instruction of this kind is a conditional store or a read-modify-write, unless it only
loads. -/
theorem atomic_cases {mnemonic : String} (hmem : (mnemonic, handler) ∈ atomicHandlers)
    (hstores : mnemonic ≠ "lr.w") : mnemonic = "sc.w" ∧ handler = storeConditional ∨
      mnemonic ≠ "sc.w" ∧ ∃ op, handler = readModifyWrite op := by
  simp only [atomicHandlers, List.mem_cons, Prod.mk.injEq, List.not_mem_nil, or_false] at hmem
  rcases hmem with ⟨rfl, -⟩ | ⟨rfl, rfl⟩ | hmodify
  · exact absurd rfl hstores
  · exact .inl ⟨rfl, rfl⟩
  · right
    rcases hmodify with ⟨rfl, rfl⟩ | ⟨rfl, rfl⟩ | ⟨rfl, rfl⟩ | ⟨rfl, rfl⟩ | ⟨rfl, rfl⟩ |
      ⟨rfl, rfl⟩ | ⟨rfl, rfl⟩ | ⟨rfl, rfl⟩ | ⟨rfl, rfl⟩
    all_goals exact ⟨by decide, _, rfl⟩

/-- Nothing is loaded from or stored to an address that is no multiple of four. -/
theorem atomic_eq_error_of_misaligned (hmem : (inst.mnemonic, handler) ∈ atomicHandlers)
    (hstores : inst.mnemonic ≠ "lr.w") (hrd : inst.register 0 = .ok rd)
    (hbase : inst.register 1 = .ok base) (ha : (k.regs.peek base).isAligned = false) :
    handler inst k = .error (.trap (.storeAddressMisaligned (k.regs.peek base)))
      { k with regs := k.regs.markRead base } := by
  have haddr := alignedAddress_eq .storeAddressMisaligned hbase k
  rw [if_neg (ne_true_of_eq_false ha)] at haddr
  rcases atomic_cases hmem hstores with ⟨-, rfl⟩ | ⟨-, op, rfl⟩
  · rw [storeConditional, bind_of_ok (operand_of_ok hrd k), bind_of_error haddr]
  · rw [readModifyWrite, bind_of_ok (operand_of_ok hrd k), bind_of_error haddr]

/-- The trap of an atomic instruction that stores and fails with operands that can be read. -/
theorem atomic_trap (hmem : (inst.mnemonic, handler) ∈ atomicHandlers)
    (hstores : inst.mnemonic ≠ "lr.w") (hrd : inst.register 0 = .ok rd)
    (hbase : inst.register 1 = .ok base) (hsource : inst.register 2 = .ok source)
    (he : handler inst k = .error e k') (encoding : Word) :
    ((k.regs.peek base).isAligned = false →
      e.trap? encoding = some (.storeAddressMisaligned (k.regs.peek base))) ∧
    ((k.regs.peek base).isAligned = true →
      (inst.mnemonic = "sc.w" ∨ k.memory.Readable (k.regs.peek base) 4) →
        e.trap? encoding = some (.storeAccessFault (k.regs.peek base))) ∧
    ((k.regs.peek base).isAligned = true → inst.mnemonic ≠ "sc.w" →
      ¬ k.memory.Readable (k.regs.peek base) 4 →
        e.trap? encoding = some (.loadAccessFault (k.regs.peek base))) := by
  refine ⟨fun ha => ?misaligned, fun ha hread => ?store, fun ha hmodifies hread => ?load⟩
  case misaligned =>
    rw [atomic_eq_error_of_misaligned hmem hstores hrd hbase ha] at he
    cases he
    rfl
  case store =>
    rcases atomic_cases hmem hstores with ⟨-, rfl⟩ | ⟨hmodifies, op, rfl⟩
    · obtain ⟨cause, rfl, htrap⟩ := storeConditional_eq_error hrd hbase hsource ha he
      exact congrArg some htrap
    · obtain ⟨cause, rfl, htrap, -⟩ := readModifyWrite_eq_error hrd hbase hsource ha he
      exact congrArg some (htrap (hread.resolve_left hmodifies))
  case load =>
    rcases atomic_cases hmem hstores with ⟨hstore, -⟩ | ⟨-, op, rfl⟩
    · exact absurd hstore hmodifies
    · obtain ⟨cause, rfl, -, htrap⟩ := readModifyWrite_eq_error hrd hbase hsource ha he
      exact congrArg some (htrap hread)

/-- An atomic instruction that stores and fails with operands that can be read raises a fault of a
store to its address, if and only if it is a conditional store, or its address is no multiple of
four, or its word can be read. Otherwise it raises the fault of a load from its address. -/
theorem atomic_storeFault_iff (k k' : Hart) (inst : Instruction) (handler : Handler)
    (rd base source : Nat) (e : ExecError) (encoding : Word)
    (hmem : (inst.mnemonic, handler) ∈ atomicHandlers) (hstores : inst.mnemonic ≠ "lr.w")
    (hrd : inst.register 0 = .ok rd) (hbase : inst.register 1 = .ok base)
    (hsource : inst.register 2 = .ok source) (he : handler inst k = .error e k') :
    ((∃ t ∈ Trap.storeFaults (k.regs.peek base), e.trap? encoding = some t) ↔
      inst.mnemonic = "sc.w" ∨
        ((k.regs.peek base).isAligned = true → k.memory.Readable (k.regs.peek base) 4)) ∧
    (e.trap? encoding = some (.loadAccessFault (k.regs.peek base)) ↔
      ¬ (inst.mnemonic = "sc.w" ∨
        ((k.regs.peek base).isAligned = true → k.memory.Readable (k.regs.peek base) 4))) := by
  obtain ⟨hmisaligned, hstore, hload⟩ := atomic_trap hmem hstores hrd hbase hsource he encoding
  generalize k.regs.peek base = addr at hmisaligned hstore hload ⊢
  have hyes : (inst.mnemonic = "sc.w" ∨ (addr.isAligned = true → k.memory.Readable addr 4)) →
      ∃ t ∈ Trap.storeFaults addr, e.trap? encoding = some t := by
    intro hholds
    cases ha : addr.isAligned with
    | false => exact ⟨_, List.mem_cons_self, hmisaligned ha⟩
    | true =>
      have hread := hholds.imp_right fun h => h ha
      exact ⟨_, List.mem_cons_of_mem _ List.mem_cons_self, hstore ha hread⟩
  have hno : ¬ (inst.mnemonic = "sc.w" ∨ (addr.isAligned = true → k.memory.Readable addr 4)) →
      e.trap? encoding = some (.loadAccessFault addr) := by
    intro hnot
    obtain ⟨hmodifies, hnot⟩ := not_or.1 hnot
    obtain ⟨ha, hread⟩ := Classical.not_imp.1 hnot
    exact hload ha hmodifies hread
  -- a load fault is no fault of a store, so that each implication has a converse
  have hapart : (∃ t ∈ Trap.storeFaults addr, e.trap? encoding = some t) →
      e.trap? encoding ≠ some (.loadAccessFault addr) := by
    rintro ⟨t, hmem, htrap⟩ hfault
    rw [htrap, Option.some_inj] at hfault
    subst hfault
    exact Trap.loadAccessFault_not_mem _ _ hmem
  exact ⟨⟨fun h => not_not.1 fun hnot => hapart h (hno hnot), hyes⟩,
    ⟨fun h hholds => hapart (hyes hholds) h, hno⟩⟩

/-- An addition to a word in memory whose address is in a register. -/
def addToWord : Instruction := .structured "amoadd.w" ["t0", "t1", "t2"]

/-- A hart without memory, with an address in that register. -/
def atAddress (addr : Word) : Hart := { regs := ({} : RegisterFile).write 6 addr }

/-- An addition to a word that is not mapped faults as a load, and one to an address that is no
multiple of four as a store. -/
theorem atomic_storeFault_of_unmapped :
    (∃ e k', readModifyWrite (· + ·) addToWord (atAddress 0x80000000) = .error e k' ∧
      e.trap? 0 = some (.loadAccessFault 0x80000000)) ∧
    ∃ e k', readModifyWrite (· + ·) addToWord (atAddress 0x80000002) = .error e k' ∧
      ∃ t ∈ Trap.storeFaults 0x80000002, e.trap? 0 = some t := by
  have hmem : (addToWord.mnemonic, readModifyWrite (· + ·)) ∈ atomicHandlers :=
    .tail _ (.tail _ (.tail _ (.head _)))
  have hunreadable : ¬ (atAddress 0x80000000).memory.Readable 0x80000000 4 := by
    rintro ⟨bytes, m', hok⟩
    cases hok
  refine ⟨⟨_, _, rfl, ?_⟩, _, _, rfl, ?_⟩
  · refine (atomic_storeFault_iff (atAddress 0x80000000) _ addToWord _ 5 6 7 _ 0 hmem (by decide)
      rfl rfl rfl rfl).2.2 ?_
    rintro (hname | hread)
    · exact absurd hname (by decide)
    · exact hunreadable (hread (by decide))
  · refine (atomic_storeFault_iff (atAddress 0x80000002) _ addToWord _ 5 6 7 _ 0 hmem (by decide)
      rfl rfl rfl rfl).1.2 (.inr fun ha => ?_)
    exact absurd ha (by decide)

/-- So not every failure of an atomic instruction that stores is a fault of a store. -/
theorem not_always_storeFault :
    ¬ ∀ (k k' : Hart) (inst : Instruction) (handler : Handler) (rd base source : Nat)
      (e : ExecError) (encoding : Word),
      (inst.mnemonic, handler) ∈ atomicHandlers → inst.mnemonic ≠ "lr.w" →
      inst.register 0 = .ok rd → inst.register 1 = .ok base → inst.register 2 = .ok source →
      handler inst k = .error e k' →
      ∃ t ∈ Trap.storeFaults (k.regs.peek base), e.trap? encoding = some t := by
  intro hall
  obtain ⟨t, hmem, htrap⟩ := hall (atAddress 0x80000000) _ addToWord (readModifyWrite (· + ·)) 5 6 7
    _ 0 (.tail _ (.tail _ (.tail _ (.head _)))) (by decide) rfl rfl rfl rfl
  cases htrap
  exact Trap.loadAccessFault_not_mem 0x80000000 _ hmem

end Exec
end Riscv32
