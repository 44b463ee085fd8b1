import Riscv32.Proofs.Csr.Kind
import Riscv32.Proofs.Hart.Exception
import Riscv32.Proofs.Hart.Failure

/-!
# User mode is confined

In user mode an instruction reaches no control register but those of user mode, since every access
is checked first, and what user mode may write neither halts the hart nor concerns the timer. Return
from a trap is refused. By induction on the shape of an instruction, nothing that is protected
changes. Around the instruction a step polls the timer, which may set the timer bit of `mip` on a
privileged hart, and makes a trap of a failure, which stays in the queue. A privileged hart is not
halted, because no failure but that of a system call halts it, and only an unprivileged hart makes
system calls. So nothing but the delivery of a trap leads to machine mode.

The host may install functions that alter what a control register shows or stores; they change
values only, and nothing here depends on them.

## Main definitions

* `Hart.Confined` — a hart in user mode with such registers.
* `Hart.Confines known h h'` — what is protected from user mode is the same in `h'` as in `h`.
* `Hart.delivered? h` — the trap that the next step delivers.

## Main statements

* `Csr.Store.set_of_user`, a write that user mode may make.
* `Exec.Acts.confining`, an instruction.
* `Exec.Acts.neverCalls`, failures of a privileged hart.
* `Hart.confines_stepped`, a step after its boundary.
* `Hart.user_confined`, the whole.
-/
namespace Riscv32

/-! ## Control registers -/

namespace Csr

variable {s : Store} {addr v : Word}

namespace Store

/-- After reset a register that user mode may write is no part of the timer and does not halt. -/
theorem kind_initial_of_user (haddr : requiredLevel addr = 0) :
    (initial.slot addr).kind ≠ .halt ∧ (initial.slot addr).kind ≠ .timerCompareLow ∧
      (initial.slot addr).kind ≠ .timerCompareHigh := by
  have hkinds : ∀ p ∈ initialKinds, requiredLevel p.1 = 0 →
      p.2 ≠ .halt ∧ p.2 ≠ .timerCompareLow ∧ p.2 ≠ .timerCompareHigh := by decide
  rcases kind_initial addr with hmem | hplain
  · exact hkinds _ hmem haddr
  · rw [hplain]
    decide

/-- A write that user mode may make changes no protected register and asks for nothing. -/
theorem set_of_user (hs : s.Virtual) (haddr : requiredLevel addr = 0) (v : Word) :
    (s.set addr v).1 = .none ∧ (s.set addr v).2.Virtual ∧
      ∀ b, requiredLevel b ≠ 0 → (s.set addr v).2.raw b = s.raw b := by
  obtain ⟨hhalt, hlow, hhigh⟩ := kind_initial_of_user haddr
  rw [← hs addr] at hhalt hlow hhigh
  refine ⟨?_, hs.set addr v, fun b hb => raw_set s v ?_ ?_⟩
  · rw [set_eq]
    cases hkind : (s.slot addr).kind with
    | halt => exact absurd hkind hhalt
    | timerCompareLow => exact absurd hkind hlow
    | timerCompareHigh => exact absurd hkind hhigh
    | _ => rfl
  · rintro rfl
    exact hb haddr
  · rintro rfl
    exact hb (by decide)

end Store

/-- What user mode may access has no required level. -/
theorem requiredLevel_of_user {write : Bool}
    (h : checkAccess addr .user write = .ok ()) : requiredLevel addr = 0 := by
  unfold checkAccess at h
  split at h
  case isTrue => cases h
  case isFalse hlevel =>
    rw [BitVec.lt_def] at hlevel
    refine BitVec.eq_of_toNat_eq ?_
    have hzero : Privilege.user.level.toNat = 0 := rfl
    rw [hzero] at hlevel
    change _ = 0
    omega

end Csr

/-! ## Instructions -/

namespace Hart

/-- The hart is in user mode, with control registers of the kinds that they have after reset. -/
structure Confined (h : Hart) : Prop where
  privilege : h.privilege = .user
  kinds : h.csrs.Virtual

/-- What is left alone in user mode. Only an unprivileged hart may be halted, unless an unknown
mnemonic halts it, and only a privileged hart may have a trap queued. -/
structure Confines (known : Prop) (h h' : Hart) : Prop where
  confined : h'.Confined
  raw : ∀ addr, Csr.requiredLevel addr ≠ 0 → h'.csrs.raw addr = h.csrs.raw addr
  timer : h'.timer = h.timer
  privileged : h'.privileged = h.privileged
  traps : h.privileged = false → h'.traps = h.traps
  halted : known → h.privileged = true → h'.halted = h.halted

variable {known : Prop} {h h₁ h₂ h₃ : Hart}

theorem Confined.confines (hh : h.Confined) : Confines known h h :=
  ⟨hh, fun _ _ => rfl, rfl, rfl, fun _ => rfl, fun _ _ => rfl⟩

theorem Confines.trans (h₁₂ : Confines known h₁ h₂) (h₂₃ : Confines known h₂ h₃) :
    Confines known h₁ h₃ where
  confined := h₂₃.confined
  raw addr haddr := (h₂₃.raw addr haddr).trans (h₁₂.raw addr haddr)
  timer := h₂₃.timer.trans h₁₂.timer
  privileged := h₂₃.privileged.trans h₁₂.privileged
  traps hp := (h₂₃.traps (h₁₂.privileged.trans hp)).trans (h₁₂.traps hp)
  halted hknown hp := (h₂₃.halted hknown (h₁₂.privileged.trans hp)).trans (h₁₂.halted hknown hp)

/-- Registers, memory, counters and the like are not protected. -/
theorem Confined.frame (hh : h.Confined) {regs : RegisterFile} {pc instructionPc : Word}
    {memory : AddressSpace} {cycle instret : Counter} {waiting : Bool} {reservation : Option Word}
    {syscalls : List Syscall} :
    Confines known h { h with
      regs, pc, instructionPc, memory, cycle, instret, waiting, reservation, syscalls } :=
  ⟨⟨hh.privilege, hh.kinds⟩, fun _ _ => rfl, rfl, rfl, fun _ => rfl, fun _ _ => rfl⟩

/-- A hart that is unprivileged or has found an unknown mnemonic may be halted. -/
theorem Confined.halt (hh : h.Confined) (hmay : known → h.privileged = false) (code : Word) :
    Confines known h (h.halt code) := by
  refine ⟨⟨hh.privilege, hh.kinds⟩, fun _ _ => rfl, rfl, rfl, fun _ => rfl, fun hknown hp => ?_⟩
  rw [hmay hknown] at hp
  cases hp

/-- Exception flags accrue in a register of user mode. -/
theorem Confined.accrue (hh : h.Confined) (flags : Word) : Confines known h (h.accrue flags) := by
  unfold Hart.accrue
  split
  · exact hh.confines
  · refine ⟨⟨hh.privilege, hh.kinds.setRaw _ _⟩, fun addr haddr => ?_, rfl, rfl, fun _ => rfl,
      fun _ _ => rfl⟩
    have hne : Csr.fcsr ≠ addr := by
      rintro rfl
      exact haddr (by decide)
    rw [Csr.Store.raw_setRaw, if_neg hne]

/-- A write to a control register is permitted in user mode only if nothing depends on it. -/
theorem Confined.writeCsr (hh : h.Confined) {addr v : Word} {h' : Hart}
    (hwrite : h.writeCsr addr v = .ok h') : Confines known h h' := by
  obtain ⟨hcheck, rfl⟩ := writeCsr_eq_ok hwrite
  rw [hh.privilege] at hcheck
  obtain ⟨heffect, hkinds, hraw⟩ :=
    Csr.Store.set_of_user hh.kinds (Csr.requiredLevel_of_user hcheck) v
  rw [heffect]
  exact ⟨⟨hh.privilege, hkinds⟩, hraw, rfl, rfl, fun _ => rfl, fun _ _ => rfl⟩

end Hart

namespace Exec

variable {α : Type} {can : Powers} {drops known : Prop} {x : Exec α} {h h' : Hart}

/-- In user mode, what an action leaves alone. -/
abbrev Confining (known : Prop) (h h' : Hart) : Prop := h.Confined → Hart.Confines known h h'

theorem Confining.trans {h₁ h₂ h₃ : Hart} (h₁₂ : Confining known h₁ h₂)
    (h₂₃ : Confining known h₂ h₃) : Confining known h₁ h₃ :=
  fun hh => (h₁₂ hh).trans (h₂₃ (h₁₂ hh).confined)

theorem respects_confining : Respects can (Confining known) where
  refl _ hh := hh.confines
  trans := Confining.trans
  markRead _ _ hh := hh.frame
  search _ _ _ _ hh := hh.frame
  reservation _ _ hh := hh.frame
  syscall _ _ hh := hh.frame
  regs _ _ hh := hh.frame
  accrue _ flags hh := hh.accrue flags
  reserve _ _ _ hh := hh.frame
  waiting _ _ hh := hh.frame
  write _ _ _ hh := hh.frame
  pc _ _ hh := hh.frame
  writeCsr _ _ _ _ _ hwrite hh := hh.writeCsr hwrite
  -- only an unprivileged hart is halted by the host
  halt _ _ code hp hh := hh.halt (fun _ => hp) code
  -- user mode cannot return from a trap
  machineReturn _ h hmachine hh := by
    rw [hh.privilege] at hmachine
    cases hmachine

/-- No instruction leaves user mode or touches what is protected from it. -/
theorem Acts.confining (hx : Acts can x) : Keeps (Confining known) x :=
  hx.keeps respects_confining

/-! ## Calls of the host -/

/-- On a privileged hart the action does not fail in a system call. -/
def NeverCalls (x : Exec α) : Prop :=
  ∀ h e h', h.privileged = true → x h = .error e h' → ∀ cause, e ≠ .syscall cause

/-- No instruction of a privileged hart fails in a system call. -/
theorem Acts.neverCalls (hx : Acts can x) : NeverCalls x := by
  intro h e h' hp he
  rcases (hx.failsWithin h e h' hp he).converts with hconverts | ⟨-, hcause⟩
  · exact hconverts.ne_syscall
  · exact hcause

end Exec

/-! ## Steps -/

namespace Hart

variable {known : Prop} {table : DispatchTable} {sets : List InstructionSet} {h h' : Hart}
  {e : ExecError} {ev : TrapEvent}

/-- The trap that the next step delivers, if it gets that far. -/
def delivered? (h : Hart) : Option TrapEvent :=
  if h.halted || h.spent.isSome || !h.privileged then none else h.pollTimer.deliverTrap.1

/-- The instruction that the next step fetches, if it gets that far. -/
def fetched? (h : Hart) : Option Instruction :=
  h.fetching?.bind fun b =>
    match AddressSpace.fetch b.pc b.memory with
    | .ok inst _ => some inst
    | .error _ _ => none

/-- Whatever the next step fetches has a handler. -/
def Knows (table : DispatchTable) (h : Hart) : Prop :=
  ∀ inst ∈ h.fetched?, (table.handler? inst.mnemonic).isSome

instance (table : DispatchTable) (h : Hart) : Decidable (h.Knows table) :=
  inferInstanceAs (Decidable (∀ inst ∈ h.fetched?, _))

/-- A failure that converts to a trap queues it on a privileged hart. -/
theorem Confined.fail_of_trap? (hh : h.Confined) (hp : h.privileged = true)
    {inst : Option Instruction} {t : Trap}
    (ht : e.trap? ((inst.bind (·.encoding?)).getD 0) = some t) :
    Confines known h (stateAfter (fun h => h.fail inst e) h) := by
  simp only [stateAfter, Hart.fail_of_trap? hp ht]
  refine ⟨⟨hh.privilege, hh.kinds⟩, fun _ _ => rfl, rfl, rfl, fun hnot => ?_, fun _ _ => rfl⟩
  rw [hp] at hnot
  cases hnot

/-- A failure queues a trap on a privileged hart and halts any other. -/
theorem Confined.fail (hh : h.Confined) (inst : Option Instruction)
    (he : h.privileged = true → ∀ cause, e ≠ .syscall cause) :
    Confines known h (stateAfter (fun h => h.fail inst e) h) := by
  cases e with
  | unimplemented mnemonic => exact hh.confines
  | debuggerRequested => exact hh.confines
  | syscall cause =>
    have hp : h.privileged = false := by
      rw [← Bool.not_eq_true]
      intro hp
      exact he hp cause rfl
    simp only [stateAfter, Hart.fail, hp]
    exact hh.halt (fun _ => hp) 1
  | _ =>
    cases hp : h.privileged with
    | true => exact hh.fail_of_trap? hp rfl
    | false =>
      simp only [stateAfter, Hart.fail, hp]
      exact hh.halt (fun _ => hp) 1

theorem Confined.execute (hsets : ∀ s ∈ sets, s ∈ InstructionSet.standard)
    (hbuild : DispatchTable.build sets = .ok table) (hh : h.Confined) {inst : Instruction}
    (hknown : known → (table.handler? inst.mnemonic).isSome) :
    Confines known h (stateAfter (fun h => h.execute table inst) h) := by
  cases hfind : table.handler? inst.mnemonic with
  | none =>
    have hmay : known → h.privileged = false := by
      intro hk
      have hsome := hknown hk
      rw [hfind] at hsome
      cases hsome
    simp only [stateAfter, Hart.execute, hfind]
    exact hh.halt hmay 1
  | some handler =>
    have hacts := DispatchTable.acts_of_handler? hsets hbuild hfind inst
    have hkept : Confines known h (stateAfter (handler inst) h) := hacts.confining h hh
    cases hres : handler inst h with
    | ok a h₁ =>
      rw [stateAfter, hres] at hkept
      simp only [stateAfter, Hart.execute, hfind, hres]
      exact hkept.trans (hkept.confined.frame)
    | error e h₁ =>
      rw [stateAfter, hres] at hkept
      simp only [stateAfter, Hart.execute, hfind, hres]
      refine hkept.trans (hkept.confined.fail (some inst) fun hp => ?_)
      exact hacts.neverCalls h e h₁ (hkept.privileged.symm.trans hp) hres

theorem Confined.fetchExecute (hsets : ∀ s ∈ sets, s ∈ InstructionSet.standard)
    (hbuild : DispatchTable.build sets = .ok table) (hh : h.Confined)
    (hknown : known → ∀ inst memory, AddressSpace.fetch h.pc h.memory = .ok inst memory →
      (table.handler? inst.mnemonic).isSome) :
    Confines known h (stateAfter (fun h => h.fetchExecute table) h) := by
  have hfetched : ∀ pc memory, Confines known h
      { h with cycle := h.cycle + 1, instructionPc := h.pc, memory, pc } :=
    fun _ _ => hh.frame
  simp only [stateAfter, Hart.fetchExecute]
  cases hfetch : AddressSpace.fetch h.pc h.memory with
  | error e memory =>
    have hstart := hfetched h.pc memory
    refine hstart.trans (hstart.confined.fail none fun _ cause hcall => ?_)
    cases hcall
  | ok inst memory =>
    have hstart := hfetched (h.pc + 4) memory
    exact hstart.trans (hstart.confined.execute hsets hbuild fun hk => hknown hk inst memory hfetch)

/-- From the boundary on, a step leaves alone what user mode must not touch. -/
theorem confines_stepped (hsets : ∀ s ∈ sets, s ∈ InstructionSet.standard)
    (hbuild : DispatchTable.build sets = .ok table) (hgo : ¬ (h.halted || h.spent.isSome) = true)
    (hh : h.atBoundary.Confined) :
    Confines (h.Knows table) h.atBoundary (h.stepped table) := by
  by_cases hwait : (h.atBoundary.waiting && !h.atBoundary.traps.hasInterrupt) = true
  · rw [stepped_of_waits table hgo hwait]
    exact hh.frame
  · have hb : h.fetching? = some { h.atBoundary with waiting := false } := by
      rw [fetching?, if_neg hgo, if_neg hwait]
    have hawake : Confines (h.Knows table) h.atBoundary { h.atBoundary with waiting := false } :=
      hh.frame
    rw [stepped_of_fetching? hb]
    refine hawake.trans (hawake.confined.fetchExecute hsets hbuild
      fun hknown inst memory hfetch => hknown inst ?_)
    rw [fetched?, hb, Option.bind_some, hfetch]
    rfl

/-! ## Boundaries -/

/-- A privileged hart that gets as far as its boundary delivers what the queue gives. -/
theorem delivered?_eq (hgo : ¬ (h.halted || h.spent.isSome) = true) (hp : h.privileged = true) :
    h.delivered? = h.pollTimer.deliverTrap.1 := by
  rw [delivered?, hp, Bool.not_true, Bool.or_false, if_neg hgo]

/-- Without a delivery the boundary is a poll of the timer at most. -/
theorem atBoundary_of_delivered?_eq_none (hgo : ¬ (h.halted || h.spent.isSome) = true)
    (hnone : h.delivered? = none) :
    h.atBoundary = if h.privileged then h.pollTimer else h := by
  rw [atBoundary]
  by_cases hp : h.privileged = true
  · rw [delivered?_eq hgo hp] at hnone
    rw [if_pos hp, if_pos hp]
    rcases deliverTrap_eq h.pollTimer with hd | ⟨ev, traps, hd⟩
    · rw [hd]
    · rw [hd] at hnone
      cases hnone
  · rw [if_neg hp, if_neg hp]

/-- A poll sets the timer bit at most. -/
theorem raw_pollTimer (h : Hart) (addr : Word) :
    h.pollTimer.csrs.raw addr = h.csrs.raw addr ∨
      h.timer.fires h.clock.now = true ∧ addr = Csr.mip ∧
        h.pollTimer.csrs.raw addr = h.csrs.raw addr ||| Csr.timerPending := by
  unfold Hart.pollTimer
  split
  case isTrue hfires =>
    change (h.csrs.setRaw Csr.mip _).raw addr = _ ∨ _ ∧ _ ∧ (h.csrs.setRaw Csr.mip _).raw addr = _
    rw [Csr.Store.raw_setRaw]
    by_cases haddr : Csr.mip = addr
    · subst haddr
      exact .inr ⟨hfires, rfl, if_pos rfl⟩
    · exact .inl (if_neg haddr)
  case isFalse => exact .inl rfl

theorem timer_pollTimer (h : Hart) : h.pollTimer.timer = h.timer.poll h.clock.now := by
  unfold Hart.pollTimer Timer.poll
  split <;> rfl

theorem Confined.pollTimer (hh : h.Confined) : h.pollTimer.Confined := by
  unfold Hart.pollTimer
  split
  · exact ⟨hh.privilege, hh.kinds.setRaw _ _⟩
  · exact hh

/-- Taking a trap stores words and makes no register of another kind. -/
theorem virtual_csrsInTrap (hs : h.csrs.Virtual) (t : Trap) : (h.csrsInTrap t).Virtual := by
  have hmstatus : ∀ {s : Csr.Store} (f : MstatusField) (v : Word), s.Virtual →
      (s.setMstatusField f v).Virtual := fun _ _ hs => hs.setRaw _ _
  have hsaved := (hmstatus .mie 0 (hmstatus .mpp h.privilege.level
    (hmstatus .mpie (h.csrs.mstatusField .mie) hs)))
  have hcause := ((hsaved.setRaw Csr.mepc h.pc).setRaw Csr.mcause t.mcause).setRaw Csr.mtval t.tval
  unfold Hart.csrsInTrap
  dsimp only
  split
  · exact hcause.setRaw _ _
  · exact hcause

/-- A trap that is handled in user mode does not leave it. -/
theorem Confined.enterTrap (hh : h.Confined) (huser : ev.target = .user) :
    (h.enterTrap ev).Confined :=
  ⟨huser, virtual_csrsInTrap hh.kinds ev.trap⟩

/-- The boundary leaves user mode only for a handler in machine mode. -/
theorem Confined.atBoundary (hh : h.Confined) (hgo : ¬ (h.halted || h.spent.isSome) = true)
    (huser : ∀ ev, h.delivered? = some ev → ev.target = .user) : h.atBoundary.Confined := by
  rw [Hart.atBoundary]
  by_cases hp : h.privileged = true
  · rw [delivered?_eq hgo hp] at huser
    rw [if_pos hp]
    rcases deliverTrap_eq h.pollTimer with hd | ⟨ev, traps, hd⟩
    · rw [hd]
      exact hh.pollTimer
    · rw [hd] at huser ⊢
      have hpolled := hh.pollTimer
      exact Confined.enterTrap ⟨hpolled.privilege, hpolled.kinds⟩ (huser ev rfl)
  · rw [if_neg hp]
    exact hh

/-! ## User mode -/

section User

variable (hsets : ∀ s ∈ sets, s ∈ InstructionSet.standard)
  (hbuild : DispatchTable.build sets = .ok table)

include hsets hbuild

/-- A step leaves user mode only to deliver a trap to machine mode. -/
theorem Confined.stepped (hh : h.Confined)
    (huser : ∀ ev, h.delivered? = some ev → ev.target = .user) : (h.stepped table).Confined := by
  by_cases hgo : (h.halted || h.spent.isSome) = true
  · rw [stepped_of_done hgo]
    exact hh
  · exact (confines_stepped hsets hbuild hgo (hh.atBoundary hgo huser)).confined

/-- An unprivileged hart delivers nothing, and a step leaves it in user mode with no more traps. -/
theorem Confined.confines_stepped_of_unprivileged (hh : h.Confined) (hp : h.privileged = false) :
    Confines (h.Knows table) h (h.stepped table) := by
  by_cases hgo : (h.halted || h.spent.isSome) = true
  · rw [stepped_of_done hgo]
    exact hh.confines
  · have hat : h.atBoundary = h := by
      rw [Hart.atBoundary, hp]
      rfl
    have hkept := confines_stepped hsets hbuild hgo (hat.symm ▸ hh)
    rw [hat] at hkept
    exact hkept

theorem Reaches.confined_of_unprivileged (hh : h.Confined) (hp : h.privileged = false)
    (hreaches : Reaches table h h') :
    h'.Confined ∧ h'.privileged = false ∧ h'.traps = h.traps := by
  induction hreaches with
  | refl => exact ⟨hh, hp, rfl⟩
  | step _ ih =>
    obtain ⟨hk, hkp, htraps⟩ := ih
    have hkept := hk.confines_stepped_of_unprivileged hsets hbuild hkp
    exact ⟨hkept.confined, hkept.privileged.trans hkp, (hkept.traps hkp).trans htraps⟩
  | elapse ticks _ ih =>
    obtain ⟨hk, hkp, htraps⟩ := ih
    obtain ⟨clock, hclock⟩ := elapse_eq ticks _
    rw [hclock]
    exact ⟨⟨hk.privilege, hk.kinds⟩, hkp, htraps⟩

/-- Without a delivery, a step does to what is protected what the poll of the timer does. -/
theorem Confined.confines_of_not_delivered (hh : h.Confined) (hnone : h.delivered? = none)
    (hgo : ¬ (h.halted || h.spent.isSome) = true) :
    Confines (h.Knows table) (if h.privileged then h.pollTimer else h) (h.stepped table) := by
  rw [← atBoundary_of_delivered?_eq_none hgo hnone]
  refine confines_stepped hsets hbuild hgo (hh.atBoundary hgo fun ev hev => ?_)
  rw [hnone] at hev
  cases hev

theorem Confined.raw_stepped (hh : h.Confined) (hnone : h.delivered? = none) {addr : Word}
    (haddr : Csr.requiredLevel addr ≠ 0) :
    (h.stepped table).csrs.raw addr = h.csrs.raw addr ∨
      h.privileged = true ∧ h.timer.fires h.clock.now = true ∧ addr = Csr.mip ∧
        (h.stepped table).csrs.raw addr = h.csrs.raw addr ||| Csr.timerPending := by
  by_cases hgo : (h.halted || h.spent.isSome) = true
  · rw [stepped_of_done hgo]
    exact .inl rfl
  rw [(hh.confines_of_not_delivered hsets hbuild hnone hgo).raw addr haddr]
  by_cases hp : h.privileged = true
  · rw [if_pos hp]
    exact (raw_pollTimer h addr).imp_right fun hpoll => ⟨hp, hpoll⟩
  · rw [if_neg hp]
    exact .inl rfl

theorem Confined.timer_stepped (hh : h.Confined) (hnone : h.delivered? = none) :
    (h.stepped table).timer = h.timer ∨
      h.privileged = true ∧ (h.stepped table).timer = { h.timer with armed := false } := by
  by_cases hgo : (h.halted || h.spent.isSome) = true
  · rw [stepped_of_done hgo]
    exact .inl rfl
  rw [(hh.confines_of_not_delivered hsets hbuild hnone hgo).timer]
  by_cases hp : h.privileged = true
  · rw [if_pos hp, timer_pollTimer, Timer.poll]
    split
    · exact .inr ⟨hp, rfl⟩
    · exact .inl rfl
  · rw [if_neg hp]
    exact .inl rfl

theorem Confined.halted_stepped (hh : h.Confined) (hnone : h.delivered? = none)
    (hp : h.privileged = true) (hknows : h.Knows table) :
    (h.stepped table).halted = h.halted := by
  by_cases hgo : (h.halted || h.spent.isSome) = true
  · rw [stepped_of_done hgo]
  have hkept := hh.confines_of_not_delivered hsets hbuild hnone hgo
  rw [if_pos hp] at hkept
  obtain ⟨csrs, traps, timer, hpoll, -⟩ := pollTimer_eq h
  rw [hpoll] at hkept
  exact hkept.halted hknows hp

/-- A step of user mode that delivers no trap stays in user mode, writes no protected register
but for the timer bit that the poll of a privileged hart sets, does not arm the timer, and does not
halt a privileged hart unless it finds an unknown mnemonic. So only the delivery of a trap leads to
machine mode, and an unprivileged hart stays in user mode for ever and queues no trap. -/
theorem user_confined (hh : h.Confined) :
    (h.delivered? = none →
      (h.stepped table).Confined ∧
      (∀ addr, Csr.requiredLevel addr ≠ 0 →
        (h.stepped table).csrs.raw addr = h.csrs.raw addr ∨
          h.privileged = true ∧ h.timer.fires h.clock.now = true ∧ addr = Csr.mip ∧
            (h.stepped table).csrs.raw addr = h.csrs.raw addr ||| Csr.timerPending) ∧
      ((h.stepped table).timer = h.timer ∨
        h.privileged = true ∧ (h.stepped table).timer = { h.timer with armed := false }) ∧
      (h.privileged = true → h.Knows table → (h.stepped table).halted = h.halted)) ∧
    ((h.stepped table).privilege ≠ .user →
      ∃ ev, h.delivered? = some ev ∧ ev.target = .machine) ∧
    (h.privileged = false → ∀ h', Reaches table h h' →
      h'.privilege = .user ∧ h'.traps = h.traps) := by
  refine ⟨?_, ?_, ?_⟩
  · intro hnone
    refine ⟨hh.stepped hsets hbuild fun ev hev => ?_,
      fun addr haddr => hh.raw_stepped hsets hbuild hnone haddr,
      hh.timer_stepped hsets hbuild hnone, hh.halted_stepped hsets hbuild hnone⟩
    rw [hnone] at hev
    cases hev
  · intro hleft
    by_contra hnot
    refine hleft (hh.stepped hsets hbuild fun ev hev => ?_).privilege
    cases htarget : ev.target with
    | user => rfl
    | machine => exact absurd ⟨ev, hev, htarget⟩ hnot
  · intro hp h' hreaches
    obtain ⟨hh', -, htraps⟩ := hreaches.confined_of_unprivileged hsets hbuild hh hp
    exact ⟨hh'.privilege, htraps⟩

end User

/-! ## A program in user mode -/

/-- Code that sets all exception flags and calls the environment. -/
def userCode : AddressSpace :=
  (AddressSpace.empty true 0x1000).insertSection
    (.ofWords ".text" 0 .code [0x00129073, 0x00000073])

/-- A hart that runs the code in user mode, with a timer that is due. -/
def atUserCode (privileged : Bool) : Hart :=
  { regs := ({} : RegisterFile).write 5 0x1F
    memory := userCode
    clock := ⟨1⟩
    timer := ⟨0, true⟩
    privileged }

/-- The timer bit is set and the flags accrue in user mode. The call leads to machine mode, by the
delivery of its trap. The same code on an unprivileged hart stays in user mode. -/
theorem user_confined_of_call :
    (((atUserCode true).stepped systemTable).Confined ∧
      ((atUserCode true).stepped systemTable).csrs.raw Csr.fcsr = 0x1F ∧
      ((atUserCode true).stepped systemTable).csrs.raw Csr.mip = Csr.timerPending ∧
      (∀ addr, Csr.requiredLevel addr ≠ 0 → addr ≠ Csr.mip →
        ((atUserCode true).stepped systemTable).csrs.raw addr = (atUserCode true).csrs.raw addr) ∧
      ((atUserCode true).stepped systemTable).timer = ⟨0, false⟩ ∧
      ((atUserCode true).stepped systemTable).halted = false) ∧
    (∃ ev, (((atUserCode true).stepped systemTable).stepped systemTable).delivered? = some ev ∧
      ev.target = .machine) ∧
    ((((atUserCode false).stepped systemTable).elapse 2).stepped systemTable).privilege = .user ∧
    ((((atUserCode false).stepped systemTable).elapse 2).stepped systemTable).traps
      = (atUserCode false).traps := by
  have hstart : ∀ p, (atUserCode p).Confined := fun _ => ⟨rfl, Csr.Store.virtual_initial⟩
  obtain ⟨hfirst, -, -⟩ := user_confined systemSets_standard build_systemSets (hstart true)
  obtain ⟨hconfined, hraw, -, hhalted⟩ := hfirst (by decide +kernel)
  obtain ⟨hsecond, -, -⟩ := user_confined systemSets_standard build_systemSets hconfined
  obtain ⟨-, hleaves, -⟩ := user_confined systemSets_standard build_systemSets
    (hsecond (by decide +kernel)).1
  obtain ⟨-, -, hstays⟩ := user_confined systemSets_standard build_systemSets (hstart false)
  refine ⟨⟨hconfined, by decide +kernel, by decide +kernel, ?_, by decide +kernel, ?_⟩,
    hleaves (by decide +kernel), hstays rfl _ (.step (.elapse 2 (.step .refl)))⟩
  · intro addr haddr hmip
    rcases hraw addr haddr with hsame | ⟨-, -, hpolled, -⟩
    · exact hsame
    · exact absurd hpolled hmip
  · exact hhalted rfl (by decide +kernel)

end Hart
end Riscv32
