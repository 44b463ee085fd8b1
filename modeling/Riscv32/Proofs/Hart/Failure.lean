import Riscv32.Proofs.Hart.Effect

/-!
# How instructions fail

On a privileged hart whatever an instruction fails with converts to a trap, for all operands, all of
memory and all control registers: the failures of operands, of accesses to memory and to control
registers do, and an environment call is a trap there and no call of the host. What does not convert
is left to the instructions of the system, which may lack a behaviour or ask for the debugger. The
other instructions fail the same way on every hart. None of these traps is an interrupt.

## Main definitions

* `ExecError.Converts e` — the failure has a trap, whatever instruction it is of.
* `Exec.Powers.Fails can e` — what an instruction with these powers may fail with.
* `Exec.FailsOn able can x` — the action fails with nothing else on the harts that are `able`.

## Main statements

* `Exec.Acts.failsOn`, by induction on the shape of an instruction.
* `Exec.Acts.failsWithin`, any instruction of a privileged hart.
* `Exec.Acts.converts`, an instruction that is none of the system.
-/
namespace Riscv32

/-- The failure has a trap, whatever instruction it is of. -/
def ExecError.Converts (e : ExecError) : Prop := ∀ encoding, (e.trap? encoding).isSome

theorem ExecError.Converts.ne_syscall {e : ExecError} (he : e.Converts) (cause : SyscallError) :
    e ≠ .syscall cause := by
  rintro rfl
  cases he 0

namespace Exec

variable {α β : Type} {can : Powers} {able : Hart → Prop} {x : Exec α} {f : α → Exec β}

/-- What an instruction with these powers may fail with, if it makes no call of the host. -/
structure Powers.Fails (can : Powers) (e : ExecError) : Prop where
  converts : e.Converts ∨ can.system ∧ ∀ cause, e ≠ .syscall cause
  synchronous : e.Synchronous

/-- A failure whose trap is known to be an exception. -/
theorem fails_of_trap? {e : ExecError} {t : Word → Trap}
    (he : ∀ encoding, e.trap? encoding = some (t encoding))
    (ht : ∀ encoding, (t encoding).isInterrupt = false) : can.Fails e := by
  refine ⟨.inl fun encoding => ?_, ExecError.synchronous_of_trap? he ht⟩
  rw [he encoding]
  rfl

/-- On the harts that are `able` the action fails with nothing but what these powers allow for. -/
def FailsOn (able : Hart → Prop) (can : Powers) (x : Exec α) : Prop :=
  ∀ h e h', able h → x h = .error e h' → can.Fails e

/-- On a privileged hart the action fails with nothing but what these powers allow for. -/
def FailsWithin (can : Powers) (x : Exec α) : Prop :=
  ∀ h e h', h.privileged = true → x h = .error e h' → can.Fails e

/-- A property of harts that goes by what no instruction touches, and that only privileged harts
have if the instruction may be one of the system. -/
structure Spares (can : Powers) (able : Hart → Prop) : Prop where
  kept : ∀ {h h'}, SameSetting h h' → able h → able h'
  privileged : can.system → ∀ {h}, able h → h.privileged = true

theorem spares_privileged : Spares can fun h => h.privileged = true where
  kept hsetting hp := (congrArg Hart.privileged hsetting).symm.trans hp
  privileged _ _ hp := hp

/-- An instruction that is none of the system spares every hart. -/
theorem spares_of_not_system (hsystem : ¬ can.system) : Spares can fun _ => True where
  kept _ _ := trivial
  privileged hcan := absurd hcan hsystem

theorem FailsOn.bind (hx : FailsOn able can x) (hable : Spares can able)
    (hkept : Keeps SameSetting x) (hf : ∀ a, FailsOn able can (f a)) :
    FailsOn able can (x >>= f) := by
  intro h e h' ha he
  rcases bind_eq_error he with he | ⟨a, h₁, ho, he⟩
  · exact hx h e h' ha he
  · have hsetting := hkept h
    rw [stateAfter, ho] at hsetting
    exact hf a h₁ e h' (hable.kept hsetting ha) he

/-- An action that first takes the hart as it is. -/
theorem failsOn_of_get {f : Hart → Exec α} (hf : ∀ h, FailsOn able can (f h)) :
    FailsOn able can (get >>= f) := fun h => hf h h

theorem failsOn_of_isOk (hx : ∀ h, ∃ a h', x h = .ok a h') : FailsOn able can x := by
  intro h e h' _ he
  obtain ⟨a, h₁, ho⟩ := hx h
  rw [ho] at he
  cases he

theorem failsOn_throw {e : ExecError} (he : can.Fails e) :
    FailsOn able can (throw e : Exec α) := by
  intro h e₁ h' _ hthrown
  cases hthrown
  exact he

theorem failsOn_ofExcept {ε : Type} {wrap : ε → ExecError} (hwrap : ∀ e, can.Fails (wrap e))
    (r : Except ε α) : FailsOn able can (ofExcept wrap r) := by
  cases r with
  | ok a => exact failsOn_of_isOk fun _ => ⟨_, _, rfl⟩
  | error e => exact failsOn_throw (hwrap e)

theorem fails_operand (e : OperandError) : can.Fails (.operand e) :=
  fails_of_trap? (fun _ => rfl) fun _ => rfl

theorem fails_csr (e : CsrError) : can.Fails (.csr e) :=
  fails_of_trap? (fun _ => rfl) fun _ => by cases e <;> rfl

theorem fails_memory (e : MemoryError) : can.Fails (.memory e) := by
  refine fails_of_trap? (fun _ => rfl) fun _ => ?_
  cases e with
  | outOfBounds addr size access => cases access <;> rfl
  | rawAccessToInstructions addr access owner => cases access <;> rfl
  | decode cause =>
    cases cause
    rfl
  | _ => rfl

theorem failsOn_access (action : Access α) : FailsOn able can (access action) := by
  intro h e h' _ he
  unfold access at he
  split at he
  · cases he
  · cases he
    exact fails_memory _

theorem failsOn_rounding (hable : Spares can able) (inst : Instruction) (index : Nat) :
    FailsOn able can (rounding inst index) := by
  refine (failsOn_ofExcept fails_operand _).bind hable
    ((keeps_ofExcept _ _).of_eq fun _ => rfl) fun field => failsOn_of_get fun h => ?_
  split
  · exact failsOn_of_isOk fun _ => ⟨_, _, rfl⟩
  · exact failsOn_throw (fails_of_trap? (fun _ => rfl) fun _ => rfl)

theorem failsOn_needs (p : Precision) (inst : Instruction) :
    FailsOn able can (needs p inst) := by
  refine failsOn_of_get fun h => ?_
  split
  · exact failsOn_throw (fails_of_trap? (fun _ => rfl) fun _ => rfl)
  · exact failsOn_of_isOk fun _ => ⟨_, _, rfl⟩

/-- The breakpoint asks for the debugger, which is no trap. -/
theorem failsOn_environmentBreak (hsystem : can.system) (inst : Instruction) :
    FailsOn able can (environmentBreak inst) := by
  refine failsOn_of_get fun h => ?_
  split
  · exact failsOn_throw ⟨.inr ⟨hsystem, nofun⟩, nofun⟩
  · exact failsOn_of_isOk fun _ => ⟨_, _, rfl⟩

theorem Checks.failsOn (hable : Spares can able) (hx : Checks can x) : FailsOn able can x := by
  induction hx with
  | pure a => exact failsOn_of_isOk fun _ => ⟨_, _, rfl⟩
  | throw e hcause hsystem hsynchronous =>
    exact failsOn_throw
      ⟨hsystem.symm.imp_right fun hsystem => ⟨hsystem, hcause⟩, hsynchronous⟩
  | bind hx _ ihx ihf => exact ihx.bind hable (hx.keeps respects_setting.toUnseen) ihf
  | readX i => exact failsOn_of_isOk fun _ => ⟨_, _, rfl⟩
  | readF p i => exact failsOn_of_isOk fun _ => ⟨_, _, rfl⟩
  | readPc => exact failsOn_of_isOk fun _ => ⟨_, _, rfl⟩
  | readInstructionPc => exact failsOn_of_isOk fun _ => ⟨_, _, rfl⟩
  | readCsr _ addr => exact failsOn_of_get fun _ => failsOn_ofExcept fails_csr _
  | load addr count => exact failsOn_access _
  | immediate inst index =>
    exact failsOn_of_get fun _ => failsOn_ofExcept fails_operand _
  | target inst index =>
    exact failsOn_of_get fun _ => failsOn_ofExcept fails_operand _
  | rounding inst index => exact failsOn_rounding hable inst index
  | needs p inst => exact failsOn_needs p inst
  | hostNaN p => exact failsOn_of_isOk fun _ => ⟨_, _, rfl⟩
  | takeReservation _ addr => exact failsOn_of_isOk fun _ => ⟨_, _, rfl⟩
  | environmentBreak hsystem inst => exact failsOn_environmentBreak hsystem inst

theorem failsOn_jump (target : Word) : FailsOn able can (jump target) := by
  refine failsOn_of_get fun h => ?_
  by_cases ha : target.isAligned
  · rw [Hart.jump, if_pos ha]
    exact failsOn_of_isOk fun _ => ⟨_, _, rfl⟩
  · rw [Hart.jump, if_neg ha]
    exact failsOn_throw (fails_of_trap? (fun _ => rfl) fun _ => rfl)

theorem failsOn_writeCsr (hable : Spares can able) (addr v : Word) :
    FailsOn able can (writeCsr addr v) :=
  failsOn_of_get fun _ => (failsOn_ofExcept fails_csr _).bind hable
    ((keeps_ofExcept _ _).of_eq fun _ => rfl) fun _ => failsOn_of_isOk fun _ => ⟨_, _, rfl⟩

/-- An environment call is a call of the host on an unprivileged hart only. -/
theorem environmentCall_of_privileged {h : Hart} (hp : h.privileged = true) (inst : Instruction) :
    ∃ t, environmentCall inst h = .error (.trap t) h ∧ t.isInterrupt = false := by
  change ∃ t, (if !h.privileged then systemCall else _) h = .error (.trap t) h ∧ _
  rw [hp]
  cases h.privilege <;> exact ⟨_, rfl, rfl⟩

theorem failsOn_environmentCall (hable : Spares can able) (hsystem : can.system)
    (inst : Instruction) : FailsOn able can (environmentCall inst) := by
  intro h e h' ha he
  obtain ⟨t, ht, hexception⟩ := environmentCall_of_privileged (hable.privileged hsystem ha) inst
  rw [ht] at he
  cases he
  exact fails_of_trap? (fun _ => rfl) fun _ => hexception

theorem failsOn_machineReturn (inst : Instruction) : FailsOn able can (machineReturn inst) := by
  refine failsOn_of_get fun h => ?_
  split
  · exact failsOn_of_isOk fun _ => ⟨_, _, rfl⟩
  · exact failsOn_throw (fails_of_trap? (fun _ => rfl) fun _ => rfl)

/-- The failures of an instruction convert to traps, unless it is one of the system. -/
theorem Acts.failsOn (hable : Spares can able) (hx : Acts can x) : FailsOn able can x := by
  induction hx with
  | checks hx => exact hx.failsOn hable
  | writes hx => exact failsOn_of_isOk hx.isOk
  | bind hx _ ihf =>
    exact (hx.failsOn hable).bind hable (hx.keeps respects_setting.toUnseen) ihf
  | andThen hx hf ihx => exact ihx.bind hable hx.setting fun a => failsOn_of_isOk (hf a).isOk
  | store addr count v => exact failsOn_access _
  | jump target => exact failsOn_jump target
  | writeCsr _ addr v => exact failsOn_writeCsr hable addr v
  | environmentCall hsystem inst => exact failsOn_environmentCall hable hsystem inst
  | machineReturn _ inst => exact failsOn_machineReturn inst

/-- On a privileged hart the failures of an instruction convert to traps, unless it is one of the
system, and those do not fail in a system call. -/
theorem Acts.failsWithin (hx : Acts can x) : FailsWithin can x := hx.failsOn spares_privileged

/-- On any hart the failures of an instruction convert to traps, if it is none of the system. -/
theorem Acts.converts (hx : Acts can x) (hsystem : ¬ can.system) {h h' : Hart} {e : ExecError}
    (he : x h = .error e h') : e.Converts :=
  (hx.failsOn (spares_of_not_system hsystem) h e h' trivial he).converts.resolve_right
    fun hcan => hsystem hcan.1

end Exec
end Riscv32
