import Riscv32.Proofs.Hart.Confinement
import Riscv32.Proofs.Hart.Lockstep

/-!
# User mode learns nothing of machine registers

Two harts in user mode that differ in nothing but what the registers of machine mode hold cannot be
told apart by what they execute. Every access to a control register is checked first, so user mode
reads none but its own registers and the views of `fcsr`, and a refusal depends on the address
alone. What it writes arms no timer, so no comparison value is read back from a machine register.
The poll of the timer sets a bit of `mip` in both harts or in neither. Only the delivery of a trap
looks at `mstatus` and `mtvec`: where neither hart delivers one, their steps give the same result,
and the harts again differ in nothing but those registers.

## Main definitions

* `Csr.Store.LowEq listed s t` — the stores differ in raw words of machine registers at most, and,
  if `listed`, hold the same addresses.
* `Hart.LowEq listed h k` — the harts differ in such stores at most.
* `Hart.UserAlike listed h k` — such harts in user mode.

## Main statements

* `Csr.Store.LowEq.get`, `Csr.Store.LowEq.set`, the accesses that user mode may make.
* `Exec.Acts.userBlind`, an instruction.
* `Hart.UserAlike.step`, a step without a delivery.
* `Hart.machine_registers_secret`, steps and runs.
-/
namespace Riscv32

/-! ## Control registers -/

namespace Csr.Store

variable {listed : Prop} {s t : Store} {addr v w : Word}

/-- The stores hold the same but for the raw words of registers that are protected from user mode.
If `listed`, the same addresses hold state in both. -/
structure LowEq (listed : Prop) (s t : Store) : Prop where
  slot : ∀ addr, ∃ raw, t.slot addr = { s.slot addr with raw }
  raw : ∀ addr, requiredLevel addr = 0 → t.raw addr = s.raw addr
  mem : listed → ∀ addr, addr ∈ t.slots ↔ addr ∈ s.slots

theorem LowEq.refl (s : Store) : LowEq listed s s :=
  ⟨fun _ => ⟨_, rfl⟩, fun _ _ => rfl, fun _ _ => .rfl⟩

/-- A register of user mode is the same in both stores. -/
theorem LowEq.slot_eq (h : LowEq listed s t) (haddr : requiredLevel addr = 0) :
    t.slot addr = s.slot addr := by
  obtain ⟨raw, hslot⟩ := h.slot addr
  have hraw : (t.slot addr).raw = (s.slot addr).raw := h.raw addr haddr
  rw [hslot] at hraw ⊢
  exact congrArg (fun raw => { s.slot addr with raw }) hraw

/-- Whatever is stored in a machine register, and the same word stored in a user register. -/
theorem LowEq.setRaw (h : LowEq listed s t) (hvw : requiredLevel addr = 0 → w = v) :
    LowEq listed (s.setRaw addr v) (t.setRaw addr w) where
  slot b := by
    obtain ⟨raw, hb⟩ := h.slot b
    by_cases hab : addr = b
    · subst hab
      exact ⟨w, by simp [Store.setRaw, hb]⟩
    · exact ⟨raw, by simp [Store.setRaw, hab, hb]⟩
  raw b hb := by
    by_cases hab : addr = b
    · subst hab
      simp [hvw hb]
    · simp [hab, h.raw b hb]
  mem hlisted b := by
    simp [Store.setRaw, setSlot, Std.TreeMap.mem_insert, h.mem hlisted b]

/-- A register of user mode reads the same. -/
theorem LowEq.get (h : LowEq listed s t) (haddr : requiredLevel addr = 0) (c : Counters) :
    t.get addr c = s.get addr c := by
  have hvalue : ∀ slot, t.value slot c = s.value slot c := by
    intro slot
    have hfcsr : t.raw fcsr = s.raw fcsr := h.raw fcsr (by decide)
    cases hkind : slot.kind <;> simp [value, hkind, hfcsr]
  simp only [Store.get, h.slot_eq haddr, hvalue]

/-- A write that user mode may make stores the same in both. -/
theorem LowEq.set (h : LowEq listed s t) (hs : s.Virtual) (haddr : requiredLevel addr = 0)
    (v : Word) : LowEq listed (s.set addr v).2 (t.set addr v).2 := by
  obtain ⟨hhalt, hlow, hhigh⟩ := kind_initial_of_user haddr
  rw [← hs addr] at hhalt hlow hhigh
  have hfcsr : ∀ {s t : Store} (f : BitField) (v : Word), LowEq listed s t →
      LowEq listed (s.setField fcsr f v) (t.setField fcsr f v) := by
    intro s t f v h
    exact h.setRaw fun hlevel => by rw [h.raw fcsr hlevel]
  have hstored : ∀ v, LowEq listed (s.setRaw addr v) (t.setRaw addr v) := fun v =>
    h.setRaw fun _ => rfl
  have hsame : t.stored addr v = s.stored addr v := by
    unfold Store.stored
    rw [h.slot_eq haddr]
  rw [set_eq, set_eq, h.slot_eq haddr, hsame]
  cases hkind : (s.slot addr).kind with
  | halt => exact absurd hkind hhalt
  | timerCompareLow => exact absurd hkind hlow
  | timerCompareHigh => exact absurd hkind hhigh
  | floatFlags => exact hfcsr _ _ (hstored _)
  | floatRoundingMode => exact hfcsr _ _ (hstored _)
  | _ => exact hstored _

end Csr.Store

/-! ## Harts -/

namespace Hart

variable {listed : Prop} {h k : Hart}

/-- The harts differ in nothing but registers that are protected from user mode. -/
def LowEq (listed : Prop) (h k : Hart) : Prop :=
  ∃ csrs, k = { h with csrs } ∧ h.csrs.LowEq listed csrs

/-- Two harts in user mode that differ in nothing but registers that are protected from it. -/
structure UserAlike (listed : Prop) (h k : Hart) : Prop where
  confined : h.Confined
  lowEq : h.LowEq listed k

theorem UserAlike.confined_right (hk : UserAlike listed h k) : k.Confined := by
  obtain ⟨hh, csrs, rfl, hcsrs⟩ := hk
  refine ⟨hh.privilege, fun addr => ?_⟩
  obtain ⟨raw, hslot⟩ := hcsrs.slot addr
  simp [hslot, hh.kinds addr]

/-- What user mode reads of a control register does not depend on the machine registers. -/
theorem UserAlike.readCsr (hk : UserAlike listed h k) (addr : Word) :
    k.readCsr addr = h.readCsr addr := by
  obtain ⟨hh, csrs, rfl, hcsrs⟩ := hk
  unfold Hart.readCsr
  cases hcheck : Csr.checkAccess addr h.privilege false with
  | error e => rfl
  | ok _ =>
    rw [hh.privilege] at hcheck
    simp [counters, hcsrs.get (Csr.requiredLevel_of_user hcheck)]

/-- In user mode a write that is not refused asks for nothing. -/
theorem Confined.writeCsr_eq (hh : h.Confined) (addr v : Word) :
    h.writeCsr addr v = (Csr.checkAccess addr .user true).map
      fun _ => { h with csrs := (h.csrs.set addr v).2 } := by
  unfold Hart.writeCsr
  rw [hh.privilege]
  cases hcheck : Csr.checkAccess addr .user true with
  | error e => rfl
  | ok _ =>
    obtain ⟨hnone, -, -⟩ :=
      Csr.Store.set_of_user hh.kinds (Csr.requiredLevel_of_user hcheck) v
    simp only [hnone]
    rfl

end Hart

/-! ## Instructions -/

namespace Exec

variable {α : Type} {can : Powers} {listed : Prop} {x : Exec α}

/-- In user mode the action does not see the machine registers. -/
abbrev UserBlind (listed : Prop) (x : Exec α) : Prop := Blind (Hart.UserAlike listed) x

theorem userBlind_ofExcept {ε : Type} (wrap : ε → ExecError) (r : Except ε α) :
    UserBlind listed (ofExcept wrap r) := by
  cases r with
  | ok a => exact blind_pure a
  | error e => exact blind_throw (wrap e)

/-- An action that takes from the hart nothing that the control registers concern. -/
theorem userBlind_of_get {f : Hart → Exec α} (hcommon : ∀ h csrs, f { h with csrs } = f h)
    (hf : ∀ h, UserBlind listed (f h)) : UserBlind listed (get >>= f) := by
  refine blind_of_get ?_ hf
  rintro h _ ⟨-, csrs, rfl, -⟩
  exact (hcommon h csrs).symm

/-- A change of parts that the control registers do not concern. -/
theorem userBlind_modifyGet {f : Hart → α × Hart}
    (hf : ∀ h csrs, f { h with csrs } = ((f h).1, { (f h).2 with csrs }))
    (hkept : ∀ h, (f h).2.csrs = h.csrs ∧ (f h).2.privilege = h.privilege) :
    UserBlind listed (modifyGet f : Exec α) := by
  rintro h _ ⟨hh, csrs, rfl, hcsrs⟩
  obtain ⟨hsame, hprivilege⟩ := hkept h
  rw [← hsame] at hcsrs
  change SameResult (Hart.UserAlike listed) (.ok (f h).1 (f h).2)
    (.ok (f { h with csrs }).1 (f { h with csrs }).2)
  rw [hf h csrs]
  exact .ok _ ⟨⟨hprivilege.trans hh.privilege, hsame ▸ hh.kinds⟩, csrs, rfl, hcsrs⟩

theorem userBlind_access (action : Access α) : UserBlind listed (access action) := by
  rintro h _ ⟨hh, csrs, rfl, hcsrs⟩
  unfold access
  dsimp only
  cases action h.memory with
  | ok a m => exact .ok a ⟨⟨hh.privilege, hh.kinds⟩, csrs, rfl, hcsrs⟩
  | error e m => exact .error _ ⟨⟨hh.privilege, hh.kinds⟩, csrs, rfl, hcsrs⟩

theorem userBlind_readCsr (addr : Word) : UserBlind listed (readCsr addr) := by
  refine blind_of_get ?_ fun h => userBlind_ofExcept _ _
  intro h k hk
  rw [hk.readCsr addr]

/-- The rounding mode is in a register of user mode. -/
theorem userBlind_rounding (inst : Instruction) (index : Nat) :
    UserBlind listed (rounding inst index) := by
  refine (userBlind_ofExcept _ _).bind fun field => blind_of_get ?_ fun h => ?_
  · rintro h _ ⟨-, csrs, rfl, hcsrs⟩
    simp [Hart.dynamicRounding, hcsrs.raw Csr.fcsr (by decide)]
  · split
    · exact blind_pure _
    · exact blind_throw _

theorem userBlind_needs (p : Precision) (inst : Instruction) : UserBlind listed (needs p inst) := by
  refine userBlind_of_get (fun _ _ => rfl) fun h => ?_
  split
  · exact blind_throw _
  · exact blind_pure _

theorem userBlind_environmentBreak (inst : Instruction) :
    UserBlind listed (environmentBreak inst) := by
  refine userBlind_of_get (fun _ _ => rfl) fun h => ?_
  split
  · exact blind_throw _
  · exact blind_pure _

theorem userBlind_readX (i : Nat) : UserBlind listed (readX i) :=
  (userBlind_modifyGet (fun _ _ => rfl) fun _ => ⟨rfl, rfl⟩).bind fun _ =>
    userBlind_of_get (fun _ _ => rfl) fun _ => blind_pure _

theorem Checks.userBlind (hx : Checks can x) : UserBlind listed x := by
  induction hx with
  | pure a => exact blind_pure a
  | throw e _ _ _ => exact blind_throw e
  | bind _ _ ihx ihf => exact ihx.bind ihf
  | readX i => exact userBlind_readX i
  | readF p i => exact userBlind_of_get (fun _ _ => rfl) fun _ => blind_pure _
  | readPc => exact userBlind_of_get (fun _ _ => rfl) fun _ => blind_pure _
  | readInstructionPc => exact userBlind_of_get (fun _ _ => rfl) fun _ => blind_pure _
  | readCsr _ addr => exact userBlind_readCsr addr
  | load addr count => exact userBlind_access _
  | immediate inst index =>
    exact userBlind_of_get (fun _ _ => rfl) fun _ => userBlind_ofExcept _ _
  | target inst index => exact userBlind_of_get (fun _ _ => rfl) fun _ => userBlind_ofExcept _ _
  | rounding inst index => exact userBlind_rounding inst index
  | needs p inst => exact userBlind_needs p inst
  | hostNaN p => exact userBlind_of_get (fun _ _ => rfl) fun _ => blind_pure _
  | takeReservation _ addr =>
    exact userBlind_modifyGet (fun _ _ => rfl) fun _ => ⟨rfl, rfl⟩
  | environmentBreak _ inst => exact userBlind_environmentBreak inst

/-- Flags accrue in a register of user mode. -/
theorem userBlind_accrue (flags : FloatFlags) : UserBlind listed (accrue flags) := by
  refine blind_modify ?_
  rintro h _ ⟨hh, csrs, rfl, hcsrs⟩
  have haccrued : Hart.Confines True h (h.accrue flags.toWord) := hh.accrue _
  refine ⟨haccrued.confined, ?_⟩
  unfold Hart.accrue
  split
  · exact ⟨csrs, rfl, hcsrs⟩
  · exact ⟨_, rfl, hcsrs.setRaw fun hlevel => by rw [hcsrs.raw Csr.fcsr hlevel]⟩

theorem Writes.userBlind (hx : Writes can x) : UserBlind listed x := by
  induction hx with
  | pure a => exact blind_pure a
  | bind _ _ ihx ihf => exact ihx.bind ihf
  | writeX i v => exact userBlind_modifyGet (fun _ _ => rfl) fun _ => ⟨rfl, rfl⟩
  | writeF p i x => exact userBlind_modifyGet (fun _ _ => rfl) fun _ => ⟨rfl, rfl⟩
  | accrue flags => exact userBlind_accrue flags
  | reserve _ addr => exact userBlind_modifyGet (fun _ _ => rfl) fun _ => ⟨rfl, rfl⟩
  | waitForInterrupt _ inst => exact userBlind_modifyGet (fun _ _ => rfl) fun _ => ⟨rfl, rfl⟩

theorem userBlind_jump (target : Word) : UserBlind listed (jump target) := by
  refine blind_get_bind ?_
  rintro h _ ⟨hh, csrs, rfl, hcsrs⟩
  by_cases ha : target.isAligned
  · simp only [Hart.jump, ha, if_true]
    exact .ok () ⟨⟨hh.privilege, hh.kinds⟩, csrs, rfl, hcsrs⟩
  · simp only [Hart.jump, ha]
    exact .error _ ⟨hh, csrs, rfl, hcsrs⟩

/-- A write that user mode may make stores a value, and a refusal depends on the address alone. -/
theorem userBlind_writeCsr (addr v : Word) : UserBlind listed (writeCsr addr v) := by
  refine blind_get_bind ?_
  intro h k hk
  cases hcheck : Csr.checkAccess addr .user true with
  | error e =>
    rw [hk.confined.writeCsr_eq, hk.confined_right.writeCsr_eq, hcheck]
    exact .error _ hk
  | ok _ =>
    have haddr := Csr.requiredLevel_of_user hcheck
    rw [hk.confined.writeCsr_eq, hk.confined_right.writeCsr_eq, hcheck]
    obtain ⟨hh, csrs, rfl, hcsrs⟩ := hk
    obtain ⟨-, hkinds, -⟩ := Csr.Store.set_of_user hh.kinds haddr v
    exact .ok () ⟨⟨hh.privilege, hkinds⟩, _, rfl, hcsrs.set hh.kinds haddr v⟩

/-- What a system call does with the answer of the host. -/
theorem userBlind_answer (answer : Except SyscallError SyscallOutcome) :
    UserBlind listed (do
      match ← ofExcept .syscall answer with
      | .returned v => writeX Register.argument0 v
      | .exited code => modify fun h => h.halt code) := by
  refine (userBlind_ofExcept _ _).bind fun outcome => ?_
  cases outcome with
  | returned v => exact userBlind_modifyGet (fun _ _ => rfl) fun _ => ⟨rfl, rfl⟩
  | exited code => exact userBlind_modifyGet (fun _ _ => rfl) fun _ => ⟨rfl, rfl⟩

/-- The host is asked the same and answers the same. -/
theorem userBlind_systemCall : UserBlind listed systemCall := by
  refine (userBlind_readX _).bind fun id => (userBlind_readX _).bind fun a =>
    (userBlind_readX _).bind fun b => (userBlind_readX _).bind fun c => blind_get_bind ?_
  rintro h _ ⟨hh, csrs, rfl, hcsrs⟩
  exact userBlind_answer _ _ _ ⟨⟨hh.privilege, hh.kinds⟩, csrs, rfl, hcsrs⟩

theorem userBlind_environmentCall (inst : Instruction) :
    UserBlind listed (environmentCall inst) := by
  refine userBlind_of_get (fun _ _ => rfl) fun h => ?_
  split
  · exact userBlind_systemCall
  · split <;> exact blind_throw _

/-- User mode cannot return from a trap, which would look at `mstatus` and `mepc`. -/
theorem userBlind_machineReturn (inst : Instruction) : UserBlind listed (machineReturn inst) := by
  refine blind_get_bind ?_
  rintro h _ ⟨hh, csrs, rfl, hcsrs⟩
  have huser : h.privilege ≠ .machine := by simp [hh.privilege]
  rw [if_neg huser, if_neg huser]
  exact .error _ ⟨hh, csrs, rfl, hcsrs⟩

/-- No instruction sees the machine registers in user mode. -/
theorem Acts.userBlind (hx : Acts can x) : UserBlind listed x := by
  induction hx with
  | checks hx => exact hx.userBlind
  | writes hx => exact hx.userBlind
  | bind hx _ ihf => exact hx.userBlind.bind ihf
  | andThen _ hf ihx => exact ihx.bind fun a => (hf a).userBlind
  | store addr count v => exact userBlind_access _
  | jump target => exact userBlind_jump target
  | writeCsr _ addr v => exact userBlind_writeCsr addr v
  | environmentCall _ inst => exact userBlind_environmentCall inst
  | machineReturn _ inst => exact userBlind_machineReturn inst

end Exec

/-! ## Steps -/

namespace Hart

variable {listed : Prop} {sets : List InstructionSet} {table : DispatchTable} {h k : Hart}

/-- A failure has the same consequence. -/
theorem UserAlike.fail (hk : UserAlike listed h k) (inst : Option Instruction) (e : ExecError) :
    SameResult (UserAlike listed) (h.fail inst e) (k.fail inst e) := by
  obtain ⟨hh, csrs, rfl, hcsrs⟩ := hk
  unfold Hart.fail
  split
  · exact .error _ ⟨hh, csrs, rfl, hcsrs⟩
  · exact .error _ ⟨hh, csrs, rfl, hcsrs⟩
  · dsimp only
    split
    · exact .ok () ⟨⟨hh.privilege, hh.kinds⟩, csrs, rfl, hcsrs⟩
    · exact .error _ ⟨⟨hh.privilege, hh.kinds⟩, csrs, rfl, hcsrs⟩

/-- The poll sets the timer bit in both harts or in neither. -/
theorem UserAlike.pollTimer (hk : UserAlike listed h k) :
    UserAlike listed h.pollTimer k.pollTimer := by
  refine ⟨hk.confined.pollTimer, ?_⟩
  obtain ⟨-, csrs, rfl, hcsrs⟩ := hk
  unfold Hart.pollTimer
  dsimp only
  split
  · exact ⟨_, rfl, hcsrs.setRaw fun huser => absurd huser (by decide)⟩
  · exact ⟨csrs, rfl, hcsrs⟩

theorem UserAlike.atBoundary (hk : UserAlike listed h k)
    (hgo : ¬ (h.halted || h.spent.isSome) = true) (hh : h.delivered? = none)
    (hk' : k.delivered? = none) : UserAlike listed h.atBoundary k.atBoundary := by
  have hsame : k.halted = h.halted ∧ k.spent = h.spent ∧ k.privileged = h.privileged := by
    obtain ⟨-, csrs, rfl, -⟩ := hk
    exact ⟨rfl, rfl, rfl⟩
  have hgo' : ¬ (k.halted || k.spent.isSome) = true := by rwa [hsame.1, hsame.2.1]
  rw [atBoundary_of_delivered?_eq_none hgo hh, atBoundary_of_delivered?_eq_none hgo' hk', hsame.2.2]
  split
  · exact hk.pollTimer
  · exact hk

section Table

variable (hsets : ∀ s ∈ sets, s ∈ InstructionSet.standard)
  (hbuild : DispatchTable.build sets = .ok table)

include hsets hbuild

theorem UserAlike.execute (hk : UserAlike listed h k) (inst : Instruction) :
    SameResult (UserAlike listed) (h.execute table inst) (k.execute table inst) := by
  unfold Hart.execute
  cases hfind : table.handler? inst.mnemonic with
  | none =>
    obtain ⟨hh, csrs, rfl, hcsrs⟩ := hk
    exact .error _ ⟨⟨hh.privilege, hh.kinds⟩, csrs, rfl, hcsrs⟩
  | some handler =>
    have hrun := (DispatchTable.acts_of_handler? hsets hbuild hfind inst).userBlind h k hk
    dsimp only
    generalize handler inst h = x, handler inst k = y at hrun
    cases hrun with
    | ok a hk' =>
      obtain ⟨hh, csrs, rfl, hcsrs⟩ := hk'
      exact .ok () ⟨⟨hh.privilege, hh.kinds⟩, csrs, rfl, hcsrs⟩
    | error e hk' => exact hk'.fail (some inst) e

theorem UserAlike.fetchExecute (hk : UserAlike listed h k) :
    SameResult (UserAlike listed) (h.fetchExecute table) (k.fetchExecute table) := by
  obtain ⟨hh, csrs, rfl, hcsrs⟩ := hk
  have hfetched : ∀ pc memory, UserAlike listed
      { h with cycle := h.cycle + 1, instructionPc := h.pc, memory, pc }
      { h with cycle := h.cycle + 1, instructionPc := h.pc, memory, pc, csrs } :=
    fun _ _ => ⟨⟨hh.privilege, hh.kinds⟩, csrs, rfl, hcsrs⟩
  unfold Hart.fetchExecute
  dsimp only
  cases AddressSpace.fetch h.pc h.memory with
  | error e memory => exact (hfetched h.pc memory).fail none (.memory e)
  | ok inst memory => exact (hfetched (h.pc + 4) memory).execute hsets hbuild inst

/-- Where neither hart delivers a trap, their steps give the same result. -/
theorem UserAlike.step (hk : UserAlike listed h k) (hh : h.delivered? = none)
    (hk' : k.delivered? = none) :
    SameResult (UserAlike listed) (h.step table) (k.step table) := by
  have hsame : k.halted = h.halted ∧ k.spent = h.spent ∧ k.pc = h.pc := by
    obtain ⟨-, csrs, rfl, -⟩ := hk
    exact ⟨rfl, rfl, rfl⟩
  have hboundary := fun hgo => hk.atBoundary hgo hh hk'
  unfold Hart.step
  rw [hsame.1, hsame.2.1, hsame.2.2]
  by_cases hhalted : h.halted
  · rw [if_pos hhalted, if_pos hhalted]
    exact .ok () hk
  rw [if_neg hhalted, if_neg hhalted]
  cases hspent : h.spent with
  | some limit => exact .error _ hk
  | none =>
    have hgo := hboundary (by simp [hhalted, hspent])
    generalize h.atBoundary = b, k.atBoundary = c at hgo
    obtain ⟨hb, csrs, rfl, hcsrs⟩ := hgo
    dsimp only
    split
    · exact .ok () ⟨⟨hb.privilege, hb.kinds⟩, csrs, rfl, hcsrs⟩
    · exact UserAlike.fetchExecute hsets hbuild ⟨⟨hb.privilege, hb.kinds⟩, csrs, rfl, hcsrs⟩

/-- As long as neither hart delivers a trap, they return the same results. -/
theorem UserAlike.results_eq (hk : UserAlike listed h k) (n : Nat)
    (hh : ∀ i < n, (results (Hart.step table) i h).2.delivered? = none)
    (hk' : ∀ i < n, (results (Hart.step table) i k).2.delivered? = none) :
    (results (Hart.step table) n h).1 = (results (Hart.step table) n k).1 ∧
      UserAlike listed (results (Hart.step table) n h).2 (results (Hart.step table) n k).2 := by
  induction n generalizing h k with
  | zero => exact ⟨rfl, hk⟩
  | succ n ih =>
    have hhead := hk.step hsets hbuild (hh 0 n.succ_pos) (hk' 0 n.succ_pos)
    have hlater : UserAlike listed (h.stepped table) (k.stepped table) → _ := fun hnext =>
      ih hnext (fun i hi => results_succ (Hart.step table) i h ▸ hh (i + 1) (by omega))
        fun i hi => results_succ (Hart.step table) i k ▸ hk' (i + 1) (by omega)
    unfold stepped stateAfter at hlater
    unfold results
    generalize Hart.step table h = x, Hart.step table k = y at hhead hlater
    cases hhead with
    | ok a hnext =>
      obtain ⟨hresults, hend⟩ := hlater hnext
      exact ⟨congrArg (.ok () :: ·) hresults, hend⟩
    | error e hnext =>
      obtain ⟨hresults, hend⟩ := hlater hnext
      exact ⟨congrArg (.error e :: ·) hresults, hend⟩

/-- Harts in user mode that differ in nothing but what the machine registers hold return the same
from a step in which neither delivers a trap, and again differ in nothing else. So do any number of
such steps. -/
theorem machine_registers_secret (hk : UserAlike listed h k) :
    (h.delivered? = none → k.delivered? = none →
      SameResult (UserAlike listed) (h.step table) (k.step table)) ∧
    ∀ n, (∀ i < n, (results (Hart.step table) i h).2.delivered? = none) →
      (∀ i < n, (results (Hart.step table) i k).2.delivered? = none) →
      (results (Hart.step table) n h).1 = (results (Hart.step table) n k).1 ∧
        UserAlike listed (results (Hart.step table) n h).2 (results (Hart.step table) n k).2 :=
  ⟨hk.step hsets hbuild, hk.results_eq hsets hbuild⟩

end Table

/-- A hart in user mode that is about to set all exception flags and then to read `mscratch`. -/
def prying (mscratch : Word) : Hart :=
  { regs := ({} : RegisterFile).write 5 0x1F
    memory := (AddressSpace.empty true 0x1000).insertSection
      (.ofWords ".text" 0 .code [0x00129073, 0x34002373])
    csrs := Csr.Store.initial.setRaw Csr.mscratch mscratch
    clock := ⟨1⟩
    timer := ⟨0, true⟩
    privileged := true }

/-- The timer fires, the flags accrue and the read is refused, whatever `mscratch` holds. -/
theorem machine_registers_secret_of_prying :
    UserAlike True (prying 1) (prying 2) ∧ (prying 1).csrs.raw Csr.mscratch = 1 ∧
      (prying 2).csrs.raw Csr.mscratch = 2 ∧
      SameResult (UserAlike True) ((prying 1).step systemTable) ((prying 2).step systemTable) ∧
      (results (Hart.step systemTable) 2 (prying 1)).1
        = (results (Hart.step systemTable) 2 (prying 2)).1 ∧
      UserAlike True (results (Hart.step systemTable) 2 (prying 1)).2
        (results (Hart.step systemTable) 2 (prying 2)).2 ∧
      (results (Hart.step systemTable) 2 (prying 1)).2.traps.toList
        = [.machine .machineTimerInterrupt, .machine (.instructionAccessFault Csr.mscratch)] ∧
      (results (Hart.step systemTable) 2 (prying 1)).2.csrs.raw Csr.fcsr = 0x1F := by
  have hsecret : (Csr.Store.initial.setRaw Csr.mscratch 1).LowEq True
      (Csr.Store.initial.setRaw Csr.mscratch 2) :=
    (Csr.Store.LowEq.refl _).setRaw fun huser => absurd huser (by decide)
  have hstart : UserAlike True (prying 1) (prying 2) :=
    ⟨⟨rfl, Csr.Store.virtual_initial.setRaw _ _⟩, _, rfl, hsecret⟩
  have hquiet : ∀ i < 2, (results (Hart.step systemTable) i (prying 1)).2.delivered? = none := by
    intro i hi
    match i with
    | 0 => decide +kernel
    | 1 => decide +kernel
  have hquiet' : ∀ i < 2, (results (Hart.step systemTable) i (prying 2)).2.delivered? = none := by
    intro i hi
    match i with
    | 0 => decide +kernel
    | 1 => decide +kernel
  obtain ⟨hone, hrun⟩ := machine_registers_secret systemSets_standard build_systemSets hstart
  obtain ⟨hresults, hend⟩ := hrun 2 hquiet hquiet'
  have hsame := hone (hquiet 0 (by decide)) (hquiet' 0 (by decide))
  exact ⟨hstart, by decide +kernel, by decide +kernel, hsame, hresults, hend,
    by decide +kernel, by decide +kernel⟩

end Hart
end Riscv32
