import Riscv32.Proofs.Csr.Status
import Riscv32.Proofs.Hart.Fault
import Riscv32.Proofs.Hart.Ledger
import Riscv32.Proofs.Hart.Lockstep

/-!
# A handler that returns at once

A trap saves the interrupt-enable bit and the privilege in two fields of `mstatus` and the program
counter in `mepc`; a return takes them from there. If the first instruction of the handler is the
return, one step does both, and the interrupted instruction is left as it would be without the trap:
only what entry and return use for saving has changed, and the trap is gone from the queue. The
order of the six writes to `mstatus` does not matter but for those to the same field.

Every trap is handled in machine mode, since nothing queues one for another.

## Main definitions

* `AddressSpace.HoldsCode m addr w` — an instruction fetched at the address is decoded from `w`.
* `Hart.Resumes h t h'` — the hart `h'` is where `h` was, without the pending trap `t`.

## Main statements

* `Hart.mstatus_returnFromTrap`, what entry and return together do to `mstatus`.
* `Hart.resumes_of_return`, the step.
* `Hart.History.machine_of_mem_traps`, the mode in which pending traps are handled.
-/
namespace Riscv32

/-! ## Fetching a given word -/

namespace AddressSpace

variable {m : AddressSpace} {addr w : Word}

/-- An executable section of bytes holds the word at the address, in the place of an instruction. -/
def HoldsCode (m : AddressSpace) (addr w : Word) : Prop :=
  ∃ s, m.sectionFor? addr = some s ∧ s.permissions.executable = true ∧
    (addr - s.base).isAligned = true ∧ s.read addr 4 = .ok (littleEndian 4 w.toNat)

/-- An instruction in a section is decoded from the word that a read of its bytes gives. -/
theorem instructionAt_of_read {s : Section} {d : Decoded} (hexec : s.permissions.executable = true)
    (haligned : (addr - s.base).isAligned = true)
    (hread : s.read addr 4 = .ok (littleEndian 4 w.toNat)) (hd : decode w = .ok d) :
    s.instructionAt addr = .ok (.raw d) := by
  unfold Section.read at hread
  split at hread
  case h_1 => cases hread
  case h_3 => cases hread
  case h_2 offset store decoded hoffset hcontents =>
    obtain ⟨hbase, hend, rfl⟩ := Section.offset_eq_ok hoffset
    have hslot : 4 * ((addr.toNat - s.base.toNat) / 4) = addr.toNat - s.base.toNat := by
      rw [Word.isAligned_iff, BitVec.toNat_sub_of_le hbase] at haligned
      omega
    have hlow : w.toNat % 1 <<< (8 * 4) = w.toNat := Nat.mod_eq_of_lt w.isLt
    have hword : Section.wordInSlot store ((addr.toNat - s.base.toNat) / 4) = w := by
      rw [Section.wordInSlot, hslot, Except.ok.inj hread, ofLittleEndian_littleEndian, hlow,
        BitVec.ofNat_toNat, BitVec.setWidth_eq]
    have hfetch : s.offset addr 4 .fetch = .ok (addr.toNat - s.base.toNat) := by
      rw [Section.offset, if_pos ⟨hbase, hend⟩]
    simp only [Section.instructionAt, hexec, haligned, Bool.not_true, Bool.false_eq_true, if_false,
      hfetch, Section.instructionInSlot, hcontents, hword, hd]

/-- What is fetched where the memory holds a word is what the word decodes to. -/
theorem fetch_of_holdsCode {d : Decoded} (hm : m.Alike m) (hcode : m.HoldsCode addr w)
    (hd : decode w = .ok d) : ∃ m', fetch addr m = .ok (.raw d) m' ∧ m.Alike m' := by
  obtain ⟨s, hs, hexec, haligned, hread⟩ := hcode
  obtain ⟨⟨i, s'⟩, hlocate, rfl⟩ := Option.map_eq_some_iff.1 ((m.map_snd_locate? addr).trans hs)
  have hdecode : decodeAt addr m = .ok (.raw d) m := by
    simp only [decodeAt, resolve, hlocate, instructionAt_of_read hexec haligned hread hd]
  have hsame := sameResult_fetch addr hm
  rw [hdecode] at hsame
  cases hfetch : fetch addr m with
  | error e m' =>
    rw [hfetch] at hsame
    cases hsame
  | ok inst m' =>
    rw [hfetch] at hsame
    cases hsame with
    | ok _ hm' => exact ⟨m', rfl, hm'.symm⟩

end AddressSpace

namespace Hart

variable {table : DispatchTable} {sets : List InstructionSet} {h h₀ h' : Hart} {t : Trap}
  {rest : TrapQueue}

/-! ## Control registers across a trap and its return -/

/-- The registers that a trap writes. -/
def trapRegisters : List Word := [Csr.mstatus, Csr.mepc, Csr.mcause, Csr.mtval, Csr.mip]

/-- A trap moves the interrupt-enable bit and the privilege to the fields that save them. -/
theorem mstatus_csrsInTrap (h : Hart) (t : Trap) :
    (h.csrsInTrap t).raw Csr.mstatus = MstatusField.mie.bits.set (MstatusField.mpp.bits.set
      (MstatusField.mpie.bits.set (h.csrs.raw Csr.mstatus) (h.csrs.mstatusField .mie))
      h.privilege.level) 0 := by
  have hother : Csr.mepc ≠ Csr.mstatus ∧ Csr.mcause ≠ Csr.mstatus ∧ Csr.mtval ≠ Csr.mstatus ∧
      Csr.mip ≠ Csr.mstatus := by decide
  simp only [csrsInTrap]
  split <;>
    simp only [Csr.Store.raw_setRaw, Csr.Store.raw_setMstatusField, hother, if_true, if_false]

/-- A trap withdraws the timer bit if it is the timer interrupt. -/
theorem mip_csrsInTrap (h : Hart) (t : Trap) :
    (h.csrsInTrap t).raw Csr.mip = if t = .machineTimerInterrupt then
      h.csrs.raw Csr.mip &&& ~~~Csr.timerPending else h.csrs.raw Csr.mip := by
  have hother : Csr.mepc ≠ Csr.mip ∧ Csr.mcause ≠ Csr.mip ∧ Csr.mtval ≠ Csr.mip ∧
      Csr.mstatus ≠ Csr.mip := by decide
  simp only [csrsInTrap]
  split <;>
    simp only [Csr.Store.raw_setRaw, Csr.Store.raw_setMstatusField, hother, if_true, if_false]

/-- A trap leaves all other control registers alone. -/
theorem slot_csrsInTrap (h : Hart) (t : Trap) {addr : Word} (haddr : addr ∉ trapRegisters) :
    (h.csrsInTrap t).slot addr = h.csrs.slot addr := by
  simp only [trapRegisters, List.mem_cons, List.not_mem_nil, or_false, not_or] at haddr
  obtain ⟨hmstatus, hmepc, hmcause, hmtval, hmip⟩ := haddr
  simp only [csrsInTrap, Csr.Store.setMstatusField, Csr.Store.setField]
  split <;>
    simp only [Csr.Store.slot_setRaw_of_ne (Ne.symm hmstatus),
      Csr.Store.slot_setRaw_of_ne (Ne.symm hmepc), Csr.Store.slot_setRaw_of_ne (Ne.symm hmcause),
      Csr.Store.slot_setRaw_of_ne (Ne.symm hmtval), Csr.Store.slot_setRaw_of_ne (Ne.symm hmip)]

/-- A return writes `mstatus` alone. -/
theorem slot_returnFromTrap (h : Hart) {addr : Word} (haddr : Csr.mstatus ≠ addr) :
    h.returnFromTrap.csrs.slot addr = h.csrs.slot addr := by
  simp only [returnFromTrap, Csr.Store.setMstatusField, Csr.Store.setField,
    Csr.Store.slot_setRaw_of_ne haddr]

/-- After a trap and its return `mstatus` is as before, but for the two fields that saved what the
trap changed: the return leaves them as if it came from user mode with interrupts enabled. -/
theorem mstatus_returnFromTrap {k : Hart} (hk : k.csrs = h.csrsInTrap t) :
    k.returnFromTrap.csrs.raw Csr.mstatus = MstatusField.mpp.bits.set
      (MstatusField.mpie.bits.set (h.csrs.raw Csr.mstatus) 1) Privilege.user.level := by
  generalize hw : h.csrs.raw Csr.mstatus = w
  have hmie : h.csrs.mstatusField .mie = MstatusField.mie.bits.get w := by
    rw [Csr.Store.mstatusField, hw]
  have hentered : k.csrs.raw Csr.mstatus = MstatusField.mie.bits.set (MstatusField.mpp.bits.set
      (MstatusField.mpie.bits.set w (MstatusField.mie.bits.get w)) h.privilege.level) 0 := by
    rw [hk, mstatus_csrsInTrap, hmie, hw]
  have hsaved : k.csrs.mstatusField .mpie = MstatusField.mie.bits.get w := by
    rw [Csr.Store.mstatusField, hentered, BitField.get_set_of_apart (by decide),
      BitField.get_set_of_apart (by decide), BitField.get_set _ (by decide), BitField.get,
      BitVec.and_assoc]
    rfl
  -- the interrupt-enable bit is back before the two fields get their last values
  have hback : (k.csrs.setMstatusField .mie (k.csrs.mstatusField .mpie)).raw Csr.mstatus =
      MstatusField.mpp.bits.set (MstatusField.mpie.bits.set w (MstatusField.mie.bits.get w))
        h.privilege.level := by
    rw [Csr.Store.raw_setMstatusField, if_pos rfl, hsaved, hentered, BitField.set_set,
      BitField.set_comm (g := MstatusField.mpp.bits) (by decide),
      BitField.set_comm (g := MstatusField.mpie.bits) (by decide), BitField.set_get]
  rw [returnFromTrap, Csr.Store.raw_setMstatusField, if_pos rfl, Csr.Store.raw_setMstatusField,
    if_pos rfl, hback, BitField.set_comm (f := MstatusField.mpie.bits) (by decide),
    BitField.set_set, BitField.set_set]

/-- A return has the privilege that the trap saved. -/
theorem privilege_returnFromTrap {k : Hart} (hk : k.csrs = h.csrsInTrap t) :
    k.returnFromTrap.privilege = h.privilege := by
  have hlevel : k.csrs.mstatusField .mpp = h.privilege.level := by
    rw [Csr.Store.mstatusField, hk, mstatus_csrsInTrap, BitField.get_set_of_apart (by decide),
      BitField.get_set _ (by decide)]
    cases h.privilege <;> rfl
  rw [returnFromTrap, hlevel, Privilege.ofLevel?_level]
  rfl

/-! ## The step -/

/-- The word of the return from a trap. -/
def returnWord : Word := 0x30200073

theorem decode_returnWord : ∃ d, decode returnWord = .ok d ∧ d.mnemonic = "mret" := by
  have hdecode : (decode returnWord).toOption.map (·.mnemonic) = some "mret" := by decide +kernel
  cases hd : decode returnWord with
  | error e =>
    rw [hd] at hdecode
    cases hdecode
  | ok d =>
    rw [hd] at hdecode
    exact ⟨d, rfl, Option.some.inj hdecode⟩

/-- The hart `h'` is where `h` was, and the pending trap `t` was handled. Nothing is left of it but
the fields and registers in which a trap saves where the hart was, the counters, and what decode
caches hold. -/
structure Resumes (h : Hart) (t : Trap) (h' : Hart) : Prop where
  frame : ∃ csrs memory traps, h' =
    { h with
      csrs, memory, traps
      cycle := h.cycle + 1
      instret := h.instret + 1
      instructionPc := h.trapVector t
      reservation := none
      waiting := false }
  memory : h.memory.Alike h'.memory
  bytes : ∀ addr, h'.memory.byteAt? addr = h.memory.byteAt? addr
  mstatus : h'.csrs.raw Csr.mstatus = MstatusField.mpp.bits.set
    (MstatusField.mpie.bits.set (h.csrs.raw Csr.mstatus) 1) Privilege.user.level
  fields : ∀ f, f ≠ .mpie → f ≠ .mpp → h'.csrs.mstatusField f = h.csrs.mstatusField f
  mpie : h'.csrs.mstatusField .mpie = 1
  mpp : h'.csrs.mstatusField .mpp = Privilege.user.level
  mepc : h'.csrs.raw Csr.mepc = h.pc
  mcause : h'.csrs.raw Csr.mcause = t.mcause
  mtval : h'.csrs.raw Csr.mtval = t.tval
  mip : h'.csrs.raw Csr.mip = if t = .machineTimerInterrupt then
    h.csrs.raw Csr.mip &&& ~~~Csr.timerPending else h.csrs.raw Csr.mip
  others : ∀ addr ∉ trapRegisters, h'.csrs.slot addr = h.csrs.slot addr
  queue : ∃ older newer, h.traps.toList = older ++ .machine t :: newer ∧
    h'.traps.toList = older ++ newer

/-- What the fields of `mstatus` hold after a trap and its return. -/
theorem mstatusField_of_returned {s s' : Csr.Store} (hs : s'.raw Csr.mstatus =
      MstatusField.mpp.bits.set (MstatusField.mpie.bits.set (s.raw Csr.mstatus) 1)
        Privilege.user.level) :
    (∀ f, f ≠ .mpie → f ≠ .mpp → s'.mstatusField f = s.mstatusField f) ∧
      s'.mstatusField .mpie = 1 ∧ s'.mstatusField .mpp = Privilege.user.level := by
  simp only [Csr.Store.mstatusField, hs]
  refine ⟨?_, ?_, ?_⟩
  · intro f hmpie hmpp
    rw [BitField.get_set_of_apart (MstatusField.apart (Ne.symm hmpp)),
      BitField.get_set_of_apart (MstatusField.apart (Ne.symm hmpie))]
  · rw [BitField.get_set_of_apart (by decide), BitField.get_set _ (by decide)]
    rfl
  · rw [BitField.get_set _ (by decide)]
    rfl

/-- In machine mode the return from a trap succeeds. -/
theorem machineReturn_of_machine (hmachine : h.privilege = .machine) (inst : Instruction) :
    Exec.machineReturn inst h = .ok () h.returnFromTrap := by
  change (if h.privilege = .machine then set h.returnFromTrap else Exec.illegal inst : Exec Unit) h
    = _
  rw [if_pos hmachine]
  rfl

/-- What a return leaves of the hart that took a trap. -/
theorem resumes_of_returnFromTrap {k : Hart} {memory : AddressSpace} (hm : h.memory.Alike memory)
    (hpop : h.traps.pop? (h.csrs.mstatusField .mie != 0) = some (.machine t, rest))
    (hk : k = (({ h with traps := rest } : Hart).enterTrap (.machine t)).executing memory) :
    Resumes h t { k.returnFromTrap with instret := h.instret + 1 } := by
  have hcsrs : k.csrs = h.csrsInTrap t := by
    rw [hk]
    rfl
  have hmstatus := mstatus_returnFromTrap hcsrs
  obtain ⟨hfields, hmpie, hmpp⟩ := mstatusField_of_returned hmstatus
  have hslot : ∀ addr, Csr.mstatus ≠ addr →
      k.returnFromTrap.csrs.slot addr = (h.csrsInTrap t).slot addr := by
    intro addr haddr
    rw [slot_returnFromTrap k haddr, hcsrs]
  have hraw : ∀ addr, Csr.mstatus ≠ addr →
      k.returnFromTrap.csrs.raw addr = (h.csrsInTrap t).raw addr :=
    fun addr haddr => congrArg Csr.Slot.raw (hslot addr haddr)
  obtain ⟨hmepc, hmcause, hmtval⟩ := raw_csrsInTrap h t
  have hpc : k.returnFromTrap.pc = h.pc := by
    rw [← hmepc, ← hcsrs]
    rfl
  have hprivilege := privilege_returnFromTrap hcsrs
  obtain ⟨-, older, newer, hbefore, hafter, -⟩ := TrapQueue.toList_of_pop? hpop
  have hframe : k.returnFromTrap =
      { h with
        csrs := k.returnFromTrap.csrs
        memory
        traps := rest
        cycle := h.cycle + 1
        instructionPc := h.trapVector t
        reservation := none
        waiting := false } := by
    rw [← hpc, ← hprivilege, hk]
    rfl
  rw [hframe]
  exact
    { frame := ⟨_, _, _, rfl⟩
      memory := hm
      bytes := fun addr => (hm.byteAt?_eq addr).symm
      mstatus := hmstatus
      fields := hfields
      mpie := hmpie
      mpp := hmpp
      mepc := (hraw _ (by decide)).trans hmepc
      mcause := (hraw _ (by decide)).trans hmcause
      mtval := (hraw _ (by decide)).trans hmtval
      mip := (hraw _ (by decide)).trans (mip_csrsInTrap h t)
      others := fun addr haddr =>
        (hslot addr (fun heq => haddr (heq ▸ List.mem_cons_self))).trans (slot_csrsInTrap h t haddr)
      queue := ⟨older, newer, hbefore, hafter⟩ }

/-- Let a privileged hart that is not halted, has cycles left and whose timer does not fire have a
pending trap that may be delivered, for machine mode as all are, and let the first word of its
handler be the return from a trap. One step takes the trap and returns from it. That what a fetch
finds is the word in memory needs coherent decode caches, and every step keeps them so. -/
theorem resumes_of_return (hbuild : DispatchTable.build sets = .ok table)
    (hsystem : .system ∈ sets) (hp : h.privileged = true) (hhalted : h.halted = false)
    (hspent : h.spent = none) (htimer : h.timer.fires h.clock.now = false)
    (hpop : h.traps.pop? (h.csrs.mstatusField .mie != 0) = some (.machine t, rest))
    (hcaches : h.memory.Alike h.memory) (hcode : h.memory.HoldsCode (h.trapVector t) returnWord) :
    ∃ h', h.step table = .ok () h' ∧ Resumes h t h' := by
  have hpoll : h.pollTimer = h := by
    rw [pollTimer, if_neg (Bool.eq_false_iff.1 htimer)]
  have hdeliver : h.pollTimer.deliverTrap =
      (some (.machine t), ({ h with traps := rest } : Hart).enterTrap (.machine t)) := by
    rw [hpoll, deliverTrap_of_pop? rest hpop]
  have htakes : Takes table h t h.pc _ := takes_of_deliverTrap hp hhalted hspent hdeliver
  obtain ⟨d, hd, hmnemonic⟩ := decode_returnWord
  obtain ⟨memory, hfetch, hm⟩ := AddressSpace.fetch_of_holdsCode hcaches hcode hd
  have hfind : table.handler? d.mnemonic = some Exec.machineReturn := by
    rw [hmnemonic]
    exact DispatchTable.handler?_of_mem hbuild hsystem
      (r := ("mret", Exec.machineReturn)) (by simp [InstructionSet.system, Exec.systemHandlers])
  refine ⟨_, ?_, resumes_of_returnFromTrap hm hpop rfl⟩
  rw [htakes.next]
  exact fetchExecute_of_ok hfetch hfind (machineReturn_of_machine rfl _)

/-! ## A handler of an environment call -/

/-- Handlers that lie one word apart. That of environment calls from user mode returns at once. -/
def vectoredHandlers : Section :=
  .ofWords ".text" 0x1000 .code (List.replicate 8 0x00000013 ++ [returnWord])

/-- A hart in user mode with interrupts disabled, one of which was raised before its environment
call and one after it. -/
def interrupted : Hart :=
  { ofConfig privilegedConfig with
    pc := 0x2000
    privilege := .user
    csrs := (Csr.Store.initial.setRaw Csr.mtvec 0x1001).setRaw Csr.mstatus 0x80007800
    memory := { sections := [vectoredHandlers] }
    reservation := some 0x3000
    traps := (({} : TrapQueue).push (.machine .machineSoftwareInterrupt)).push
      (.machine .environmentCallFromUMode) |>.push (.machine .machineExternalInterrupt) }

theorem holdsCode_interrupted : interrupted.memory.HoldsCode
    (interrupted.trapVector .environmentCallFromUMode) returnWord :=
  ⟨vectoredHandlers, rfl, rfl, by decide +kernel, by decide +kernel⟩

/-- The call is taken from between the two interrupts and handled at its own entry. The hart is back
in user mode, and the privilege that `mstatus` held before is gone. -/
theorem resumes_interrupted :
    interrupted.trapVector .environmentCallFromUMode = 0x1020 ∧
      (∃ h', interrupted.step systemTable = .ok () h' ∧
        Resumes interrupted .environmentCallFromUMode h' ∧ h'.pc = 0x2000 ∧ h'.privilege = .user ∧
        h'.csrs.raw Csr.mstatus = 0x80006080) ∧
      (interrupted.stepped systemTable).traps.toList =
        [.machine .machineSoftwareInterrupt, .machine .machineExternalInterrupt] := by
  have hcaches : interrupted.memory.Alike interrupted.memory :=
    ⟨_, rfl, .cons (.bytes _ _ _ _ (DecodeCache.coherent_empty _) (DecodeCache.coherent_empty _))
      .nil⟩
  have hpop : interrupted.traps.pop? (interrupted.csrs.mstatusField .mie != 0) =
      some (.machine .environmentCallFromUMode,
        ⟨[.machine .machineExternalInterrupt, .machine .machineSoftwareInterrupt]⟩) := by
    decide +kernel
  obtain ⟨h', hstep, hresumes⟩ := resumes_of_return build_systemSets (by simp [systemSets]) rfl rfl
    rfl (by decide) hpop hcaches holdsCode_interrupted
  refine ⟨by decide +kernel, ⟨h', hstep, hresumes, ?_, ?_, ?_⟩, by decide +kernel⟩
  · obtain ⟨_, _, _, rfl⟩ := hresumes.frame
    rfl
  · obtain ⟨_, _, _, rfl⟩ := hresumes.frame
    rfl
  · rw [hresumes.mstatus]
    decide +kernel

/-! ## Runs -/

/-- An instruction of the standard sets raises traps for machine mode alone. -/
theorem machine_of_mem_raises (hsets : ∀ s ∈ sets, s ∈ InstructionSet.standard)
    (hbuild : DispatchTable.build sets = .ok table) {e : TrapEvent} (he : e ∈ h.raises table) :
    ∃ t, e = .machine t := by
  rcases List.mem_append.1 he with hpolled | hfailed
  · rw [polled?] at hpolled
    split at hpolled
    · cases hpolled
    split at hpolled
    · exact ⟨_, List.mem_singleton.1 hpolled⟩
    · cases hpolled
  · obtain ⟨b, t, -, -, rfl⟩ := exception?_of_mem_raises hsets hbuild hfailed
    exact ⟨t, rfl⟩

/-- On every run of a privileged hart, from an empty queue, all pending traps are to be handled in
machine mode. -/
theorem History.machine_of_mem_traps (hsets : ∀ s ∈ sets, s ∈ InstructionSet.standard)
    (hbuild : DispatchTable.build sets = .ok table) (hp : h₀.privileged = true)
    (hempty : h₀.traps = .empty) {raised delivered : List TrapEvent}
    (hhistory : History table h₀ raised delivered h) {e : TrapEvent} (he : e ∈ h.traps.toList) :
    ∃ t, e = .machine t := by
  have hraised : ∀ e ∈ raised, ∃ t, e = .machine t := by
    clear he
    induction hhistory with
    | start => exact List.forall_mem_nil _
    | step _ ih =>
      intro e he
      rcases List.mem_append.1 he with he | he
      · exact ih e he
      · exact machine_of_mem_raises hsets hbuild he
    | elapse ticks _ ih => exact ih
    | raise t _ ih =>
      intro e he
      rcases List.mem_append.1 he with he | he
      · exact ih e he
      · exact ⟨t, List.mem_singleton.1 he⟩
  have hordered := (hhistory.balanced (fun s hs => .inl (hsets s hs)) hbuild hp hempty).ordered
  exact hraised e (hordered.subset he)

end Hart
end Riscv32
