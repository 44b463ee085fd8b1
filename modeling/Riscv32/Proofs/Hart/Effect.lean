import Riscv32.Proofs.Hart.Shape
import Riscv32.Proofs.Memory.Access

/-!
# What instructions leave alone

By induction on the shape of an instruction. Whatever relation respects each single change that an
instruction makes holds between the hart before it and the hart after. An instruction that fails
leaves nothing behind but what its checks leave, so there the relation has to respect these alone.
And there is a part of the hart, its setting, that no instruction touches.

## Main definitions

* `Exec.Keeps R x` — the relation `R` holds between the hart before `x` and the hart after.
* `Exec.KeepsOnError R x` — the same, if `x` fails.
* `Exec.Unseen drops R` — the relations that respect what checks leave behind.
* `Exec.Respects can R` — the relations that respect every single change of an instruction.
* `Hart.setting` — the part of a hart that no instruction touches.

## Main statements

* `Exec.Acts.keepsOnError`, an instruction that fails.
* `Exec.Acts.keeps`, any instruction.
* `Exec.Acts.setting`, the setting.
-/
namespace Riscv32

/-- The part of a hart that no instruction touches. -/
def Hart.setting (h : Hart) : Hart :=
  { h with
    regs := {}
    pc := 0
    csrs := .initial
    privilege := .user
    memory := {}
    halted := false
    exitCode := none
    waiting := false
    reservation := none
    timer := {}
    syscalls := [] }

/-- The two harts have the same setting. -/
def SameSetting (h h' : Hart) : Prop := h.setting = h'.setting

/-- A write to a control register that is permitted stores the value and does what it asks for. -/
theorem Hart.writeCsr_eq_ok {h h' : Hart} {addr v : Word} (hwrite : h.writeCsr addr v = .ok h') :
    Csr.checkAccess addr h.privilege true = .ok () ∧
      h' = ({ h with csrs := (h.csrs.set addr v).2 } : Hart).apply (h.csrs.set addr v).1 := by
  unfold Hart.writeCsr at hwrite
  cases hcheck : Csr.checkAccess addr h.privilege true with
  | error e =>
    rw [hcheck] at hwrite
    cases hwrite
  | ok _ =>
    rw [hcheck] at hwrite
    cases hwrite
    exact ⟨rfl, rfl⟩

namespace Exec

variable {α β : Type} {can : Powers} {drops : Prop} {R : Hart → Hart → Prop} {x : Exec α}
  {f : α → Exec β}
  {h h' : Hart} {e : ExecError}

/-- The relation holds between the hart before the action and the hart after, whether the action
fails or not. -/
def Keeps (R : Hart → Hart → Prop) (x : Exec α) : Prop := ∀ h, R h (stateAfter x h)

/-- The relation holds between the hart before the action and the hart after, if the action
fails. -/
def KeepsOnError (R : Hart → Hart → Prop) (x : Exec α) : Prop :=
  ∀ h e h', x h = .error e h' → R h h'

/-- The relations that respect what checks leave behind. -/
structure Unseen (drops : Prop) (R : Hart → Hart → Prop) : Prop where
  refl : ∀ h, R h h
  trans : ∀ {h₁ h₂ h₃}, R h₁ h₂ → R h₂ h₃ → R h₁ h₃
  markRead : ∀ h i, R h { h with regs := h.regs.markRead i }
  search : ∀ h addr m, AddressSpace.Serves addr h.memory m → R h { h with memory := m }
  reservation : drops → ∀ h, R h { h with reservation := none }
  syscall : ∀ h call, R h { h with
    memory := (h.syscallHandler call h.memory).2, syscalls := call :: h.syscalls }

/-! ## Actions one after the other -/

theorem operand_of_ok {r : Except OperandError α} {a : α} (hr : r = .ok a) (h : Hart) :
    (liftM r : Exec α) h = .ok a h := by
  rw [hr]
  rfl

theorem operand_of_error {r : Except OperandError α} {e : OperandError} (hr : r = .error e)
    (h : Hart) : (liftM r : Exec α) h = .error (.operand e) h := by
  rw [hr]
  rfl

theorem readX_bind (i : Nat) (f : Word → Exec α) (h : Hart) :
    (readX i >>= f) h = f (h.regs.peek i) { h with regs := h.regs.markRead i } := rfl

theorem readF_bind (p : Precision) (i : Nat) (f : FloatBits p → Exec α) (h : Hart) :
    (readF p i >>= f) h = f (h.regs.floats.read p i) h := rfl

theorem hostNaN_bind (p : Precision) (f : FloatBits.NaN p → Exec α) (h : Hart) :
    (hostNaN p >>= f) h = f (h.nans h.cycle p) h := rfl

/-- Registers that are too narrow for double precision refuse the instruction. -/
theorem needs_double_eq (inst : Instruction) (h : Hart) :
    needs .double inst h = if h.regs.floats.precision = .double then .ok () h
      else .error (illegalError inst) h := by
  have hget : (get : Exec Hart) h = .ok h h := rfl
  rw [needs, bind_of_ok hget]
  cases hp : h.regs.floats.precision <;> rfl

theorem Keeps.bind (hR : ∀ {h₁ h₂ h₃}, R h₁ h₂ → R h₂ h₃ → R h₁ h₃) (hx : Keeps R x)
    (hf : ∀ a, Keeps R (f a)) : Keeps R (x >>= f) := by
  intro h
  have hxh := hx h
  simp only [stateAfter, Bind.bind, EStateM.bind] at hxh ⊢
  cases hres : x h with
  | ok a h₁ =>
    rw [hres] at hxh
    exact hR hxh (hf a h₁)
  | error e h₁ =>
    rw [hres] at hxh
    exact hxh

/-- An action that fails fails in its first part or, on the hart that the first part leaves, in
its second. -/
theorem bind_eq_error (he : (x >>= f) h = .error e h') :
    x h = .error e h' ∨ ∃ a h₁, x h = .ok a h₁ ∧ f a h₁ = .error e h' := by
  simp only [Bind.bind, EStateM.bind] at he
  cases hres : x h with
  | ok a h₁ =>
    rw [hres] at he
    exact .inr ⟨a, h₁, rfl, he⟩
  | error e₁ h₁ =>
    rw [hres] at he
    cases he
    exact .inl rfl

theorem Keeps.of_ok {a : α} (hx : Keeps R x) (hok : x h = .ok a h') : R h h' := by
  have hxh := hx h
  rw [stateAfter, hok] at hxh
  exact hxh

theorem Keeps.onError (hx : Keeps R x) : KeepsOnError R x := by
  intro h e h' he
  have hxh := hx h
  rw [stateAfter, he] at hxh
  exact hxh

/-- What the first part keeps in any case and the second part keeps if it fails. -/
theorem Keeps.bind_onError (hR : ∀ {h₁ h₂ h₃}, R h₁ h₂ → R h₂ h₃ → R h₁ h₃) (hx : Keeps R x)
    (hf : ∀ a, KeepsOnError R (f a)) : KeepsOnError R (x >>= f) := by
  intro h e h' he
  rcases bind_eq_error he with he | ⟨a, h₁, ho, he⟩
  · exact hx.onError h e h' he
  · have hxh := hx h
    rw [stateAfter, ho] at hxh
    exact hR hxh (hf a h₁ e h' he)

/-- A second part that cannot fail. -/
theorem KeepsOnError.bind_isOk (hx : KeepsOnError R x) (hf : ∀ a h, ∃ b h', f a h = .ok b h') :
    KeepsOnError R (x >>= f) := by
  intro h e h' he
  rcases bind_eq_error he with he | ⟨a, h₁, -, he⟩
  · exact hx h e h' he
  · obtain ⟨b, h₂, ho⟩ := hf a h₁
    rw [ho] at he
    cases he

/-! ## Checks -/

/-- What leaves the hart alone keeps every reflexive relation. -/
theorem Keeps.of_eq (hR : ∀ h, R h h) (hx : Keeps Eq x) : Keeps R x := by
  intro h
  rw [← hx h]
  exact hR h

theorem keeps_ofExcept {ε : Type} (wrap : ε → ExecError) (r : Except ε α) :
    Keeps Eq (ofExcept wrap r) := by
  intro h
  cases r <;> rfl

theorem keeps_get : Keeps Eq (get : Exec Hart) := fun _ => rfl

theorem keeps_immediate (inst : Instruction) (index : Nat) : Keeps Eq (immediate inst index) :=
  .bind Eq.trans keeps_get fun _ => keeps_ofExcept _ _

theorem keeps_target (inst : Instruction) (index : Nat) : Keeps Eq (target inst index) :=
  .bind Eq.trans keeps_get fun _ => keeps_ofExcept _ _

theorem keeps_readCsr (addr : Word) : Keeps Eq (readCsr addr) :=
  .bind Eq.trans keeps_get fun _ => keeps_ofExcept _ _

theorem keeps_rounding (inst : Instruction) (index : Nat) : Keeps Eq (rounding inst index) := by
  refine .bind Eq.trans (keeps_ofExcept _ _) fun field => .bind Eq.trans keeps_get fun h => ?_
  split <;> exact fun _ => rfl

theorem keeps_needs (p : Precision) (inst : Instruction) : Keeps Eq (needs p inst) := by
  refine .bind Eq.trans keeps_get fun h => ?_
  split <;> exact fun _ => rfl

theorem keeps_environmentBreak (inst : Instruction) : Keeps Eq (environmentBreak inst) := by
  refine .bind Eq.trans keeps_get fun h => ?_
  split <;> exact fun _ => rfl

theorem readNat_serves (addr : Word) (count : Nat) (m : AddressSpace) :
    AddressSpace.Serves addr m (stateAfter (AddressSpace.readNat addr count) m) := by
  simp only [stateAfter, AddressSpace.readNat, Bind.bind, EStateM.bind]
  cases hread : AddressSpace.read addr count m with
  | ok bytes m' => exact (AddressSpace.read_eq_ok hread).1
  | error e m' => exact AddressSpace.read_eq_error hread

/-- An access that succeeds on the hart succeeds on its memory. -/
theorem access_eq_ok {action : Access α} {a : α} (hok : access action h = .ok a h') :
    ∃ m, action h.memory = .ok a m ∧ h' = { h with memory := m } := by
  unfold access at hok
  cases haction : action h.memory with
  | ok b m =>
    rw [haction] at hok
    cases hok
    exact ⟨m, rfl, rfl⟩
  | error e m =>
    rw [haction] at hok
    cases hok

/-- An access that fails on the hart fails on its memory. -/
theorem access_eq_error {action : Access α} (he : access action h = .error e h') :
    ∃ cause m, action h.memory = .error cause m ∧ e = .memory cause ∧
      h' = { h with memory := m } := by
  unfold access at he
  cases haction : action h.memory with
  | ok b m =>
    rw [haction] at he
    cases he
  | error cause m =>
    rw [haction] at he
    cases he
    exact ⟨cause, m, rfl, rfl, rfl⟩

/-- An access changes nothing but the memory, and that as it would on its own. -/
theorem stateAfter_access (action : Access α) (h : Hart) :
    stateAfter (access action) h = { h with memory := stateAfter action h.memory } := by
  simp only [stateAfter, access]
  cases action h.memory <;> rfl

theorem Checks.keeps (hR : Unseen can.drops R) (hx : Checks can x) : Keeps R x := by
  induction hx with
  | pure a => exact hR.refl
  | throw e _ _ _ => exact hR.refl
  | bind _ _ ihx ihf => exact ihx.bind hR.trans ihf
  | readX i => exact fun h => hR.markRead h i
  | readF p i => exact hR.refl
  | readPc => exact hR.refl
  | readInstructionPc => exact hR.refl
  | readCsr _ addr => exact (keeps_readCsr addr).of_eq hR.refl
  | load addr count =>
    intro h
    rw [Exec.load, stateAfter_access]
    exact hR.search h addr _ (readNat_serves addr count h.memory)
  | immediate inst index => exact (keeps_immediate inst index).of_eq hR.refl
  | target inst index => exact (keeps_target inst index).of_eq hR.refl
  | rounding inst index => exact (keeps_rounding inst index).of_eq hR.refl
  | needs p inst => exact (keeps_needs p inst).of_eq hR.refl
  | hostNaN p => exact hR.refl
  | takeReservation hdrops addr => exact hR.reservation hdrops
  | environmentBreak _ inst => exact (keeps_environmentBreak inst).of_eq hR.refl

/-! ## Failures -/

theorem Writes.isOk (hx : Writes can x) (h : Hart) : ∃ a h', x h = .ok a h' := by
  induction hx generalizing h with
  | pure a => exact ⟨a, h, rfl⟩
  | bind _ _ ihx ihf =>
    obtain ⟨a, h₁, hx⟩ := ihx h
    obtain ⟨b, h₂, hf⟩ := ihf a h₁
    refine ⟨b, h₂, ?_⟩
    simp only [Bind.bind, EStateM.bind, hx, hf]
  | writeX i v => exact ⟨_, _, rfl⟩
  | writeF p i x => exact ⟨_, _, rfl⟩
  | accrue flags => exact ⟨_, _, rfl⟩
  | reserve _ addr => exact ⟨_, _, rfl⟩
  | waitForInterrupt _ inst => exact ⟨_, _, rfl⟩

/-- A store that is refused leaves what the search for its address leaves. -/
theorem keepsOnError_store (hR : Unseen drops R) (addr : Word) (count v : Nat) :
    KeepsOnError R (store addr count v) := by
  intro h e h' he
  simp only [store, access] at he
  split at he
  case h_1 => cases he
  case h_2 hw =>
    cases he
    exact hR.search h addr _ (AddressSpace.write_eq_error hw)

/-- A jump that is refused leaves the hart alone. -/
theorem keepsOnError_jump (target : Word) : KeepsOnError Eq (jump target) := by
  refine Keeps.bind_onError Eq.trans keeps_get fun h => ?_
  cases h.jump target with
  | ok h₁ =>
    intro _ _ _ he
    cases he
  | error t => exact Keeps.onError fun _ => rfl

/-- A refused write to a control register leaves the hart alone. -/
theorem keepsOnError_writeCsr (addr v : Word) : KeepsOnError Eq (writeCsr addr v) := by
  refine Keeps.bind_onError Eq.trans keeps_get fun h =>
    Keeps.bind_onError Eq.trans (keeps_ofExcept _ _) fun h₁ => ?_
  intro _ _ _ he
  cases he

/-- A refused return from a trap leaves the hart alone. -/
theorem keepsOnError_machineReturn (inst : Instruction) : KeepsOnError Eq (machineReturn inst) := by
  refine Keeps.bind_onError Eq.trans keeps_get fun h => ?_
  split
  · intro _ _ _ he
    cases he
  · exact Keeps.onError fun _ => rfl

/-- A system call that fails leaves its record and the memory that the host leaves. -/
theorem keepsOnError_systemCall (hR : Unseen drops R) : KeepsOnError R systemCall := by
  have hread : ∀ i, Keeps R (readX i) := fun i h => hR.markRead h i
  refine (hread _).bind_onError hR.trans fun id => (hread _).bind_onError hR.trans fun a =>
    (hread _).bind_onError hR.trans fun b => (hread _).bind_onError hR.trans fun c => ?_
  have hanswer : ∀ (answer : Except SyscallError SyscallOutcome) (f : SyscallOutcome → Exec Unit),
      (∀ outcome, KeepsOnError R (f outcome)) → KeepsOnError R (ofExcept .syscall answer >>= f) :=
    fun answer f hf => ((keeps_ofExcept _ _).of_eq hR.refl).bind_onError hR.trans hf
  intro h e h' he
  refine hR.trans (hR.syscall h ⟨id, a, b, c⟩) (hanswer _ _ (fun outcome => ?_) _ e h' he)
  cases outcome <;> intro _ _ _ he <;> cases he

/-- An environment call that fails. -/
theorem keepsOnError_environmentCall (hR : Unseen drops R) (inst : Instruction) :
    KeepsOnError R (environmentCall inst) := by
  refine (keeps_get.of_eq hR.refl).bind_onError hR.trans fun h => ?_
  split
  · exact keepsOnError_systemCall hR
  · split <;> exact Keeps.onError hR.refl

theorem KeepsOnError.of_eq (hR : ∀ h, R h h) (hx : KeepsOnError Eq x) : KeepsOnError R x := by
  intro h e h' he
  rw [← hx h e h' he]
  exact hR h

/-- An instruction that fails leaves what its checks leave. -/
theorem Acts.keepsOnError (hR : Unseen can.drops R) (hx : Acts can x) : KeepsOnError R x := by
  induction hx with
  | checks hx => exact (hx.keeps hR).onError
  | writes hx =>
    intro h e h' he
    obtain ⟨a, h₁, ho⟩ := hx.isOk h
    rw [ho] at he
    cases he
  | bind hx _ ihf => exact (hx.keeps hR).bind_onError hR.trans ihf
  | andThen _ hf ihx => exact ihx.bind_isOk fun a => (hf a).isOk
  | store addr count v => exact keepsOnError_store hR addr count v
  | jump target => exact (keepsOnError_jump target).of_eq hR.refl
  | writeCsr _ addr v => exact (keepsOnError_writeCsr addr v).of_eq hR.refl
  | environmentCall _ inst => exact keepsOnError_environmentCall hR inst
  | machineReturn _ inst => exact (keepsOnError_machineReturn inst).of_eq hR.refl

/-! ## Instructions -/

/-- The relations that respect what writes change. -/
structure Written (can : Powers) (R : Hart → Hart → Prop) : Prop where
  refl : ∀ h, R h h
  trans : ∀ {h₁ h₂ h₃}, R h₁ h₂ → R h₂ h₃ → R h₁ h₃
  regs : ∀ (h : Hart) regs, R h { h with regs }
  accrue : ∀ h flags, R h (h.accrue flags)
  reserve : can.reserves → ∀ h addr, R h (h.reserve addr)
  waiting : can.system → ∀ h : Hart, R h { h with waiting := h.privileged }

/-- The relations that respect every single change that an instruction makes. -/
structure Respects (can : Powers) (R : Hart → Hart → Prop) : Prop extends
    Unseen can.drops R, Written can R where
  write : ∀ h addr data, R h { h with
    memory := stateAfter (AddressSpace.write addr data) h.memory }
  pc : ∀ (h : Hart) pc, R h { h with pc }
  writeCsr : can.controls → ∀ {h addr v h'}, h.writeCsr addr v = .ok h' → R h h'
  halt : can.system → ∀ h code, h.privileged = false → R h (h.halt code)
  machineReturn : can.system → ∀ h, h.privilege = .machine → R h h.returnFromTrap

theorem Writes.keeps (hR : Written can R) (hx : Writes can x) : Keeps R x := by
  induction hx with
  | pure a => exact hR.refl
  | bind _ _ ihx ihf => exact ihx.bind hR.trans ihf
  | writeX i v => exact fun h => hR.regs h _
  | writeF p i x => exact fun h => hR.regs h _
  | accrue flags => exact fun h => hR.accrue h _
  | reserve hreserves addr => exact fun h => hR.reserve hreserves h addr
  | waitForInterrupt hsystem inst => exact hR.waiting hsystem

/-- An action that first takes the hart as it is. -/
theorem keeps_of_get {f : Hart → Exec α} (hf : ∀ h, R h (stateAfter (f h) h)) :
    Keeps R (get >>= f) := hf

theorem keeps_jump (hR : Respects can R) (target : Word) : Keeps R (jump target) := by
  refine keeps_of_get fun h => ?_
  by_cases ha : target.isAligned
  · rw [Hart.jump, if_pos ha]
    exact hR.pc h target
  · rw [Hart.jump, if_neg ha]
    exact hR.refl h

/-- A write to a control register that is refused leaves the hart alone. -/
theorem stateAfter_writeCsr (addr v : Word) (h : Hart) :
    stateAfter (writeCsr addr v) h = (h.writeCsr addr v).toOption.getD h := by
  change stateAfter (ofExcept .csr (h.writeCsr addr v) >>= set) h = _
  cases h.writeCsr addr v <;> rfl

theorem keeps_writeCsr (hR : Respects can R) (hcontrols : can.controls) (addr v : Word) :
    Keeps R (writeCsr addr v) := by
  intro h
  rw [stateAfter_writeCsr]
  cases hwrite : h.writeCsr addr v with
  | error e => exact hR.refl h
  | ok h' => exact hR.writeCsr hcontrols hwrite

/-- The relation on unprivileged harts. -/
def Unprivileged (R : Hart → Hart → Prop) (h h' : Hart) : Prop :=
  h.privileged = false → R h h' ∧ h'.privileged = false

theorem Unprivileged.trans {h₁ h₂ h₃ : Hart} (h₁₂ : Unprivileged R h₁ h₂)
    (hR : Respects can R) (h₂₃ : Unprivileged R h₂ h₃) : Unprivileged R h₁ h₃ := by
  intro hp
  obtain ⟨hleft, hp₂⟩ := h₁₂ hp
  obtain ⟨hright, hp₃⟩ := h₂₃ hp₂
  exact ⟨hR.trans hleft hright, hp₃⟩

/-- A system call writes the answer of the host to a register, or halts the hart. -/
theorem keeps_systemCall (hR : Respects can R) (hsystem : can.system) :
    Keeps (Unprivileged R) systemCall := by
  have htrans : ∀ {h₁ h₂ h₃}, Unprivileged R h₁ h₂ → Unprivileged R h₂ h₃ →
      Unprivileged R h₁ h₃ := fun h₁₂ h₂₃ => h₁₂.trans hR h₂₃
  have hread : ∀ i, Keeps (Unprivileged R) (readX i) := fun i h hp => ⟨hR.markRead h i, hp⟩
  refine (hread _).bind htrans fun id => (hread _).bind htrans fun a =>
    (hread _).bind htrans fun b => (hread _).bind htrans fun c => keeps_of_get fun h hp => ?_
  have hasked := hR.syscall h ⟨id, a, b, c⟩
  cases hanswer : h.syscallHandler ⟨id, a, b, c⟩ h.memory with
  | mk answer memory =>
    rw [hanswer] at hasked
    rcases answer with e | ⟨v | code⟩
    · exact ⟨hasked, hp⟩
    · exact ⟨hR.trans hasked (hR.regs _ _), hp⟩
    · exact ⟨hR.trans hasked (hR.halt hsystem _ code hp), hp⟩

theorem keeps_environmentCall (hR : Respects can R) (hsystem : can.system) (inst : Instruction) :
    Keeps R (environmentCall inst) := by
  refine keeps_of_get fun h => ?_
  cases hp : h.privileged with
  | false => exact (keeps_systemCall hR hsystem h hp).1
  | true => cases h.privilege <;> exact hR.refl h

theorem keeps_machineReturn (hR : Respects can R) (hsystem : can.system) (inst : Instruction) :
    Keeps R (machineReturn inst) := by
  refine keeps_of_get fun h => ?_
  by_cases hmachine : h.privilege = .machine
  · rw [if_pos hmachine]
    exact hR.machineReturn hsystem h hmachine
  · rw [if_neg hmachine]
    exact hR.refl h

/-- What respects every single change holds between the hart before an instruction and the hart
after, whether it fails or not. -/
theorem Acts.keeps (hR : Respects can R) (hx : Acts can x) : Keeps R x := by
  induction hx with
  | checks hx => exact hx.keeps hR.toUnseen
  | writes hx => exact hx.keeps hR.toWritten
  | bind hx _ ihf => exact (hx.keeps hR.toUnseen).bind hR.trans ihf
  | andThen _ hf ihx => exact ihx.bind hR.trans fun a => (hf a).keeps hR.toWritten
  | store addr count v =>
    intro h
    rw [Exec.store, stateAfter_access]
    exact hR.write h addr (littleEndian count v)
  | jump target => exact keeps_jump hR target
  | writeCsr hcontrols addr v => exact keeps_writeCsr hR hcontrols addr v
  | environmentCall hsystem inst => exact keeps_environmentCall hR hsystem inst
  | machineReturn hsystem inst => exact keeps_machineReturn hR hsystem inst

/-! ## The setting -/

theorem respects_setting : Respects can SameSetting where
  refl _ := rfl
  trans := Eq.trans
  markRead _ _ := rfl
  search _ _ _ _ := rfl
  reservation _ _ := rfl
  syscall _ _ := rfl
  regs _ _ := rfl
  accrue h flags := by
    unfold Hart.accrue
    split <;> rfl
  reserve _ _ _ := rfl
  waiting _ _ := rfl
  write _ _ _ := rfl
  pc _ _ := rfl
  writeCsr _ h addr v h' hwrite := by
    obtain ⟨-, rfl⟩ := Hart.writeCsr_eq_ok hwrite
    cases (h.csrs.set addr v).1 <;> rfl
  halt _ _ _ _ := rfl
  machineReturn _ _ _ := rfl

/-- No instruction touches the setting, whether it fails or not. -/
theorem Acts.setting (hx : Acts can x) : Keeps SameSetting x := hx.keeps respects_setting

end Exec
end Riscv32
