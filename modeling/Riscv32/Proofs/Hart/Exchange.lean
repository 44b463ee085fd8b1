import Riscv32.Proofs.Hart.Executable
import Riscv32.Proofs.Instruction.Operand

/-!
# Exchanges with control registers

The six control register instructions are one operation: an exchange between the destination and a
control register, which swaps in a value or sets or clears the bits of a mask. It reads unless it
swaps into register 0, and writes unless a mask is register 0 or zero. A mask counts by the number
of its register and not by what the register holds.

An exchange is made whole or not at all. If each access that it has to make is permitted, the
destination takes the old value and the control register is handed the new one; if not, the hart is
left as it was but for the marker of the register read last.

## Main definitions

* `Csr.Readable` and `Csr.Writable` — what a mode may do with an address.
* `Exchange` — an operation, a source, a destination and an address.
* `Exchange.Permitted` — each access of the exchange is permitted.
* `Exchange.after` — the hart after the exchange.

## Main statements

* `Csr.checkAccess_read` and `Csr.checkAccess_write`, the check that the hart makes.
* `Exec.exchanges_swap` and `Exec.exchanges_update`, the two ways in which the instructions do it.
* `Exec.exchange_iff_permitted`, the six instructions.
-/
namespace Riscv32

/-! ## Permission -/

namespace Csr

variable {addr : Word} {mode : Privilege}

/-- The mode is of the level that the address asks for. -/
def Readable (addr : Word) (mode : Privilege) : Prop := requiredLevel addr ≤ mode.level

/-- Beside that, the address is not one of a register that cannot be written. -/
def Writable (addr : Word) (mode : Privilege) : Prop := Readable addr mode ∧ isReadOnly addr = false

instance : Decidable (Readable addr mode) := inferInstanceAs (Decidable (_ ≤ _))

instance : Decidable (Writable addr mode) := inferInstanceAs (Decidable (_ ∧ _))

theorem checkAccess_read : checkAccess addr mode false = .ok () ↔ Readable addr mode := by
  rw [checkAccess, Readable, ← BitVec.not_lt]
  by_cases hlevel : mode.level < requiredLevel addr
  · simp [hlevel]
  · simp [hlevel]

theorem checkAccess_write : checkAccess addr mode true = .ok () ↔ Writable addr mode := by
  rw [checkAccess, Writable, Readable, ← BitVec.not_lt]
  by_cases hlevel : mode.level < requiredLevel addr
  · simp [hlevel]
  · by_cases hreadOnly : isReadOnly addr = true
    · simp [hlevel, hreadOnly]
    · simp [hlevel, hreadOnly]

end Csr

/-! ## Exchanges -/

namespace Exchange

/-- What becomes of the control register. -/
inductive Operation
  | swap
  | set
  | clear
  deriving DecidableEq

/-- The new value, from the old one and the source. -/
def Operation.combine : Operation → Word → Word → Word
  | swap, _, v => v
  | set, old, v => old ||| v
  | clear, old, v => old &&& ~~~v

/-- The number of a register, or five bits of the instruction. -/
inductive Source
  | register (i : Nat)
  | immediate (v : Word)
  deriving DecidableEq

namespace Source

/-- The source is register 0 or an immediate of zero, which as a mask asks for no write. -/
def IsZero : Source → Prop
  | register i => i = Register.zero
  | immediate v => v = 0

instance : DecidablePred IsZero
  | register _ => inferInstanceAs (Decidable (_ = _))
  | immediate _ => inferInstanceAs (Decidable (_ = _))

/-- What the source holds. -/
def value (f : RegisterFile) : Source → Word
  | register i => f.peek i
  | immediate v => v

/-- The source stands in the instruction. -/
def In (inst : Instruction) (symbols : Symbols) : Source → Prop
  | register i => inst.register 2 = .ok i
  | immediate v => (inst.immediate 2 symbols).map (· &&& 0x1F) = .ok v

end Source
end Exchange

/-- What a control register instruction asks for. -/
structure Exchange where
  operation : Exchange.Operation
  source : Exchange.Source
  rd : Nat
  addr : Word

namespace Exchange

variable {x : Exchange} {v : Word} {k : Hart}

/-- The name of the instruction. -/
def mnemonic (x : Exchange) : String :=
  match x.operation, x.source with
  | .swap, .register _ => "csrrw"
  | .set, .register _ => "csrrs"
  | .clear, .register _ => "csrrc"
  | .swap, .immediate _ => "csrrwi"
  | .set, .immediate _ => "csrrsi"
  | .clear, .immediate _ => "csrrci"

/-- The instruction asks for the exchange. -/
structure Of (x : Exchange) (inst : Instruction) (symbols : Symbols) : Prop where
  mnemonic : inst.mnemonic = x.mnemonic
  rd : inst.register 0 = .ok x.rd
  addr : inst.csr 1 = .ok x.addr
  source : x.source.In inst symbols

/-- The exchange reads the control register. -/
def Reads (x : Exchange) : Prop := ¬ (x.operation = .swap ∧ x.rd = Register.zero)

/-- The exchange writes the control register. -/
def Writes (x : Exchange) : Prop := x.operation = .swap ∨ ¬ x.source.IsZero

instance : Decidable x.Reads := inferInstanceAs (Decidable (¬ _))

instance : Decidable x.Writes := inferInstanceAs (Decidable (_ ∨ _))

/-- The mode may make each access that the exchange makes. -/
def Permitted (x : Exchange) (mode : Privilege) : Prop :=
  (x.Reads → Csr.Readable x.addr mode) ∧ (x.Writes → Csr.Writable x.addr mode)

instance (mode : Privilege) : Decidable (x.Permitted mode) := inferInstanceAs (Decidable (_ ∧ _))

end Exchange

/-- The hart after a control register was handed a value. -/
def Hart.assign (h : Hart) (addr v : Word) : Hart :=
  ({ h with csrs := (h.csrs.set addr v).2 } : Hart).apply (h.csrs.set addr v).1

@[simp] theorem Hart.assign_regs (h : Hart) (addr v : Word) : (h.assign addr v).regs = h.regs := by
  unfold assign
  cases (h.csrs.set addr v).1 <;> rfl

/-- The hart after an exchange with this value for the source. -/
def Exchange.after (x : Exchange) (v : Word) (k : Hart) : Hart :=
  let old := k.csrs.get x.addr k.counters
  let assigned := if x.Writes then k.assign x.addr (x.operation.combine old v) else k
  { assigned with regs := k.regs.write x.rd old }

/-- The destination shows what the control register showed before. -/
theorem Exchange.peek_after {x : Exchange} {v : Word} (k : Hart) (hrd : x.rd ≠ Register.zero)
    (hlt : x.rd < Register.count) :
    (x.after v k).regs.peek x.rd = k.csrs.get x.addr k.counters :=
  k.regs.peek_write_self hrd hlt (k.csrs.get x.addr k.counters)

/-! ## Instructions -/

namespace Exec

variable {x : Exchange} {inst : Instruction} {addr v : Word} {h k : Hart} {rd : Nat}
  {mask : Option Word} {op : Word → Word → Word}

theorem readCsr_of_readable (hread : Csr.Readable addr k.privilege) :
    readCsr addr k = .ok (k.csrs.get addr k.counters) k := by
  have hvalue : k.readCsr addr = .ok (k.csrs.get addr k.counters) := by
    rw [Hart.readCsr, Csr.checkAccess_read.2 hread]
    rfl
  change ofExcept .csr (k.readCsr addr) k = _
  rw [hvalue]
  rfl

theorem readCsr_of_not_readable (hread : ¬ Csr.Readable addr k.privilege) :
    ∃ e, readCsr addr k = .error (.csr e) k := by
  change ∃ e, ofExcept .csr (k.readCsr addr) k = _
  rw [Hart.readCsr]
  cases hcheck : Csr.checkAccess addr k.privilege false with
  | ok _ => exact absurd (Csr.checkAccess_read.1 hcheck) hread
  | error e => exact ⟨e, rfl⟩

theorem writeCsr_of_writable (hwrite : Csr.Writable addr k.privilege) (v : Word) :
    writeCsr addr v k = .ok () (k.assign addr v) := by
  have hvalue : k.writeCsr addr v = .ok (k.assign addr v) := by
    rw [Hart.writeCsr, Csr.checkAccess_write.2 hwrite]
    rfl
  change (ofExcept .csr (k.writeCsr addr v) >>= set) k = _
  rw [hvalue]
  rfl

theorem writeCsr_of_not_writable (hwrite : ¬ Csr.Writable addr k.privilege) (v : Word) :
    ∃ e, writeCsr addr v k = .error (.csr e) k := by
  change ∃ e, (ofExcept .csr (k.writeCsr addr v) >>= set) k = _
  rw [Hart.writeCsr]
  cases hcheck : Csr.checkAccess addr k.privilege true with
  | ok _ => exact absurd (Csr.checkAccess_write.1 hcheck) hwrite
  | error e => exact ⟨e, rfl⟩

/-- The action makes the exchange with this value for the source, or leaves the hart alone. -/
structure Exchanges (x : Exchange) (v : Word) (action : Exec Unit) (k : Hart) : Prop where
  made : x.Permitted k.privilege → action k = .ok () (x.after v k)
  refused : ¬ x.Permitted k.privilege → ∃ e, action k = .error (.csr e) k

/-- Reads a control register, writes it, and gives the old value to the destination. -/
def readWrite (rd : Nat) (addr : Word) (new : Word → Word) : Exec Unit :=
  readCsr addr >>= fun old => writeCsr addr (new old) >>= fun _ => writeX rd old

/-- Reading and writing is the exchange, if it is to make both accesses. -/
theorem exchanges_readWrite (hreads : x.Reads) (hwrites : x.Writes) (v : Word) (k : Hart) :
    Exchanges x v (readWrite x.rd x.addr (x.operation.combine · v)) k := by
  by_cases hread : Csr.Readable x.addr k.privilege
  · by_cases hwrite : Csr.Writable x.addr k.privilege
    · refine ⟨fun _ => ?_, fun h => absurd ⟨fun _ => hread, fun _ => hwrite⟩ h⟩
      rw [readWrite, bind_of_ok (readCsr_of_readable hread),
        bind_of_ok (writeCsr_of_writable hwrite _), Exchange.after, if_pos hwrites,
        ← Hart.assign_regs k x.addr]
      rfl
    · obtain ⟨e, he⟩ := writeCsr_of_not_writable hwrite
        (x.operation.combine (k.csrs.get x.addr k.counters) v)
      refine ⟨fun h => absurd (h.2 hwrites) hwrite, fun _ => ⟨e, ?_⟩⟩
      rw [readWrite, bind_of_ok (readCsr_of_readable hread), bind_of_error he]
  · obtain ⟨e, he⟩ := readCsr_of_not_readable hread
    refine ⟨fun h => absurd (h.1 hreads) hread, fun _ => ⟨e, ?_⟩⟩
    rw [readWrite, bind_of_error he]

/-- A swap. Into register 0 nothing is read, and the old value would be lost there. -/
theorem exchanges_swap (hx : x.operation = .swap) (v : Word) (k : Hart) :
    Exchanges x v (swapCsr x.rd x.addr v) k := by
  have hwrites : x.Writes := .inl hx
  by_cases hrd : x.rd = Register.zero
  · have hreads : ¬ x.Reads := not_not_intro ⟨hx, hrd⟩
    rw [swapCsr, if_pos hrd]
    refine ⟨fun h => ?made, fun h => ?refused⟩
    case made =>
      have hdiscarded : k.regs.write x.rd (k.csrs.get x.addr k.counters) =
          (k.assign x.addr v).regs := by
        rw [hrd, Hart.assign_regs]
        rfl
      rw [writeCsr_of_writable (h.2 hwrites), Exchange.after, if_pos hwrites, hx, hdiscarded]
      rfl
    case refused =>
      refine writeCsr_of_not_writable (fun hwrite => h ⟨?_, fun _ => hwrite⟩) v
      exact fun hread => absurd hread hreads
  · have hboth : swapCsr x.rd x.addr v = readWrite x.rd x.addr (x.operation.combine · v) := by
      rw [swapCsr, if_neg hrd, hx]
      rfl
    rw [hboth]
    exact exchanges_readWrite (fun h => hrd h.2) hwrites v k

/-- An update. It always reads, and writes if there is a mask. -/
theorem exchanges_update (hx : x.operation ≠ .swap) (v : Word) (k : Hart) :
    Exchanges x v
      (updateCsr x.rd x.addr (if x.source.IsZero then none else some v) x.operation.combine) k := by
  have hreads : x.Reads := fun h => hx h.1
  by_cases hzero : x.source.IsZero
  · have hwrites : ¬ x.Writes := fun h => h.elim hx (absurd hzero)
    rw [if_pos hzero]
    by_cases hread : Csr.Readable x.addr k.privilege
    · refine ⟨fun _ => ?_, fun h => absurd ⟨fun _ => hread, fun h => absurd h hwrites⟩ h⟩
      rw [updateCsr, bind_of_ok (readCsr_of_readable hread), Exchange.after, if_neg hwrites]
      rfl
    · obtain ⟨e, he⟩ := readCsr_of_not_readable hread
      refine ⟨fun h => absurd (h.1 hreads) hread, fun _ => ⟨e, ?_⟩⟩
      rw [updateCsr, bind_of_error he]
  · rw [if_neg hzero]
    exact exchanges_readWrite hreads (.inr hzero) v k

/-- The sources of a swap give their value and leave the hart alone but for a marker. -/
theorem registerSource_eq {i : Nat} (hrs : inst.register 2 = .ok i) (h : Hart) :
    registerSource inst h = .ok (h.regs.peek i) { h with regs := h.regs.markRead i } := by
  rw [registerSource, bind_of_ok (operand_of_ok hrs h)]
  rfl

theorem smallImmediate_eq
    (himm : (inst.immediate 2 h.memory.symbol?).map (· &&& 0x1F) = .ok v) :
    smallImmediate inst h = .ok v h := by
  cases hvalue : inst.immediate 2 h.memory.symbol? with
  | error e =>
    rw [hvalue] at himm
    cases himm
  | ok imm =>
    rw [hvalue] at himm
    cases himm
    have hoperand : immediate inst 2 h = .ok imm h := operand_of_ok hvalue h
    rw [smallImmediate, bind_of_ok hoperand]
    rfl

/-- The sources of an update give none for register 0 and for an immediate of zero. -/
theorem registerMask_eq {i : Nat} (hrs : inst.register 2 = .ok i) (h : Hart) :
    ∃ lastRead, registerMask inst h =
      .ok (if (Exchange.Source.register i).IsZero then none else some (h.regs.peek i))
        { h with regs := { h.regs with lastRead } } := by
  rw [registerMask, bind_of_ok (operand_of_ok hrs h)]
  by_cases hzero : i = Register.zero
  · refine ⟨h.regs.lastRead, ?_⟩
    rw [if_pos hzero, if_pos (show (Exchange.Source.register i).IsZero from hzero)]
    rfl
  · refine ⟨some i, ?_⟩
    rw [if_neg hzero, if_neg (show ¬ (Exchange.Source.register i).IsZero from hzero)]
    rfl

theorem immediateMask_eq
    (himm : (inst.immediate 2 h.memory.symbol?).map (· &&& 0x1F) = .ok v) :
    immediateMask inst h =
      .ok (if (Exchange.Source.immediate v).IsZero then none else some v) h := by
  rw [immediateMask, bind_of_ok (smallImmediate_eq himm)]
  rfl

theorem csrSwap_eq (hx : x.Of inst h.memory.symbol?) {source : Instruction → Exec Word}
    (hsource : source inst h = .ok v k) :
    csrSwap source inst h = swapCsr x.rd x.addr v k := by
  rw [csrSwap, bind_of_ok (operand_of_ok hx.rd h), bind_of_ok (operand_of_ok hx.addr h),
    bind_of_ok hsource]

theorem csrUpdate_eq (hx : x.Of inst h.memory.symbol?) {source : Instruction → Exec (Option Word)}
    (hsource : source inst h = .ok mask k) :
    csrUpdate source op inst h = updateCsr x.rd x.addr mask op k := by
  rw [csrUpdate, bind_of_ok (operand_of_ok hx.rd h), bind_of_ok (operand_of_ok hx.addr h),
    bind_of_ok hsource]

/-- The instruction of an exchange makes it with what the source holds, on the hart with the source
marked. -/
theorem exists_exchanges (hx : x.Of inst h.memory.symbol?) :
    ∃ handler lastRead, (x.mnemonic, handler) ∈ csrHandlers ∧
      ∃ action : Exec Unit, handler inst h = action { h with regs := { h.regs with lastRead } } ∧
        Exchanges x (x.source.value h.regs) action { h with regs := { h.regs with lastRead } } := by
  have hset : Exchange.Operation.set ≠ .swap := nofun
  have hclear : Exchange.Operation.clear ≠ .swap := nofun
  obtain ⟨operation, source, rd, addr⟩ := x
  cases source with
  | register i =>
    have hrs : inst.register 2 = .ok i := hx.source
    obtain ⟨lastRead, hmask⟩ := registerMask_eq hrs h
    cases operation with
    | swap =>
      exact ⟨csrSwap registerSource, some i, .head _, _, csrSwap_eq hx (registerSource_eq hrs h),
        exchanges_swap rfl _ _⟩
    | set =>
      exact ⟨csrUpdate registerMask setBits, lastRead, .tail _ (.head _), _, csrUpdate_eq hx hmask,
        exchanges_update hset _ _⟩
    | clear =>
      exact ⟨csrUpdate registerMask clearBits, lastRead, .tail _ (.tail _ (.head _)), _,
        csrUpdate_eq hx hmask, exchanges_update hclear _ _⟩
  | immediate v =>
    have himm : (inst.immediate 2 h.memory.symbol?).map (· &&& 0x1F) = .ok v := hx.source
    have hmask := immediateMask_eq himm
    cases operation with
    | swap =>
      exact ⟨csrSwap smallImmediate, h.regs.lastRead, .tail _ (.tail _ (.tail _ (.head _))), _,
        csrSwap_eq hx (smallImmediate_eq himm), exchanges_swap rfl _ _⟩
    | set =>
      exact ⟨csrUpdate immediateMask setBits, h.regs.lastRead,
        .tail _ (.tail _ (.tail _ (.tail _ (.head _)))), _, csrUpdate_eq hx hmask,
        exchanges_update hset _ _⟩
    | clear =>
      exact ⟨csrUpdate immediateMask clearBits, h.regs.lastRead,
        .tail _ (.tail _ (.tail _ (.tail _ (.tail _ (.head _))))), _, csrUpdate_eq hx hmask,
        exchanges_update hclear _ _⟩

/-- The control register instructions. With operands that can be read, one succeeds if and only if
each access that it has to make is permitted. Then it has made the exchange, with the value that the
source held before the destination was written, and a destination other than register 0 holds what
the control register showed before. If it fails, it has changed nothing but the marker of the
register read last. -/
theorem exchange_iff_permitted (h : Hart) (inst : Instruction) (x : Exchange)
    (hx : x.Of inst h.memory.symbol?) :
    ∃ handler lastRead, DispatchTable.standard.handler? inst.mnemonic = some handler ∧
      ((∃ h', handler inst h = .ok () h') ↔ x.Permitted h.privilege) ∧
      (∀ h', handler inst h = .ok () h' →
        h' = x.after (x.source.value h.regs) { h with regs := { h.regs with lastRead } } ∧
          (x.rd ≠ Register.zero → h'.regs.peek x.rd = h.csrs.get x.addr h.counters)) ∧
      ∀ e h', handler inst h = .error e h' →
        h' = { h with regs := { h.regs with lastRead } } ∧ ∃ cause, e = .csr cause := by
  obtain ⟨handler, lastRead, hmem, action, haction, hexchanges⟩ := exists_exchanges hx
  have hset : InstructionSet.controlRegister ∈ InstructionSet.standard :=
    .tail _ (.tail _ (.tail _ (.tail _ (.tail _ (.head _)))))
  have hfind : DispatchTable.standard.handler? inst.mnemonic = some handler := by
    rw [hx.mnemonic]
    exact DispatchTable.handler?_of_mem DispatchTable.build_standard hset hmem
  refine ⟨handler, lastRead, hfind, ?_⟩
  rw [haction]
  by_cases hpermitted : x.Permitted h.privilege
  · rw [hexchanges.made hpermitted]
    refine ⟨iff_of_true ⟨_, rfl⟩ hpermitted, ?made, ?_⟩
    case made =>
      intro h' hok
      cases hok
      exact ⟨rfl, fun hrd => Exchange.peek_after _ hrd (Instruction.register_lt hx.rd)⟩
    · intro e h' he
      cases he
  · obtain ⟨cause, hrefused⟩ := hexchanges.refused hpermitted
    rw [hrefused]
    refine ⟨iff_of_false ?_ hpermitted, ?_, ?refused⟩
    · rintro ⟨h', hok⟩
      cases hok
    · intro h' hok
      cases hok
    case refused =>
      intro e h' he
      cases he
      exact ⟨rfl, cause, rfl⟩

end Exec

/-- A hart in machine mode with a mask in a register and bits in a scratch register. -/
def Hart.masking : Hart :=
  { privilege := .machine
    regs := ({} : RegisterFile).write 5 0x0F
    csrs := Csr.Store.initial.setRaw Csr.mscratch 0xFF }

/-- One register may be both mask and destination. A register that cannot be written is refused to a
swap that reads nothing, and shown to an update whose mask is register 0. -/
theorem Exec.exchange_of_masking :
    (∃ handler h', DispatchTable.standard.handler? "csrrc" = some handler ∧
      handler (.structured "csrrc" ["t0", "mscratch", "t0"]) Hart.masking = .ok () h' ∧
      h'.regs.peek 5 = 0xFF ∧ h'.csrs.raw Csr.mscratch = 0xF0) ∧
    (∃ handler, DispatchTable.standard.handler? "csrrw" = some handler ∧
      ¬ ∃ h', handler (.structured "csrrw" ["zero", "mhartid", "t0"]) Hart.masking = .ok () h') ∧
    ∃ handler h', DispatchTable.standard.handler? "csrrs" = some handler ∧
      handler (.structured "csrrs" ["t0", "mhartid", "zero"]) Hart.masking = .ok () h' := by
  have hclear : Exchange.Of ⟨.clear, .register 5, 5, Csr.mscratch⟩
      (.structured "csrrc" ["t0", "mscratch", "t0"]) Hart.masking.memory.symbol? :=
    ⟨rfl, rfl, rfl, rfl⟩
  have hswap : Exchange.Of ⟨.swap, .register 5, 0, Csr.mhartid⟩
      (.structured "csrrw" ["zero", "mhartid", "t0"]) Hart.masking.memory.symbol? :=
    ⟨rfl, rfl, rfl, rfl⟩
  have hset : Exchange.Of ⟨.set, .register 0, 5, Csr.mhartid⟩
      (.structured "csrrs" ["t0", "mhartid", "zero"]) Hart.masking.memory.symbol? :=
    ⟨rfl, rfl, rfl, rfl⟩
  refine ⟨?_, ?_, ?_⟩
  · obtain ⟨handler, lastRead, hfind, hiff, hmade, -⟩ := exchange_iff_permitted _ _ _ hclear
    obtain ⟨h', hok⟩ := hiff.2 (by decide)
    obtain ⟨hafter, hpeek⟩ := hmade h' hok
    -- the marker of the register read last does not show in a control register
    have hcsrs : h'.csrs = (Exchange.after ⟨.clear, .register 5, 5, Csr.mscratch⟩
        (Hart.masking.regs.peek 5) Hart.masking).csrs := by
      rw [hafter]
      rfl
    refine ⟨handler, h', hfind, hok, (hpeek (by decide)).trans (by decide +kernel), ?_⟩
    rw [hcsrs]
    decide +kernel
  · obtain ⟨handler, lastRead, hfind, hiff, -⟩ := exchange_iff_permitted _ _ _ hswap
    exact ⟨handler, hfind, mt hiff.1 (by decide)⟩
  · obtain ⟨handler, lastRead, hfind, hiff, -⟩ := exchange_iff_permitted _ _ _ hset
    obtain ⟨h', hok⟩ := hiff.2 (by decide)
    exact ⟨handler, h', hfind, hok⟩

end Riscv32
