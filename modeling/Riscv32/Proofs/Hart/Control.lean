import Riscv32.Proofs.Hart.Return
import Riscv32.Proofs.Hart.Trail

/-!
# Writes to control registers

A swap writes the control register that it names, and so does an update unless its source is
register 0 or an immediate of zero. No other instruction writes one, but for the flags that it
accrues in `fcsr` and for the `mstatus` of a return from a trap. So the operands of an instruction
tell which control register it writes, and what the write does is that of the single register: one
to either half of the timer comparison arms the timer with both halves and withdraws the timer bit
of `mip`, and no other one concerns the timer.

## Main definitions

* `Instruction.writesCsr` — an instruction that writes the control register that it names.
* `Hart.written? table h` — the control register that the next step writes.
* `Csr.timerPair` — the two halves of the timer comparison.

## Main statements

* `Exec.eq_of_csrHandler`, what a control register instruction does.
* `Hart.instructed_of_written?`, `Hart.instructed_of_written?_eq_none`, what the instruction of a
  step does to the control registers.
* `Hart.timer_instructed`, what it does to the timer.
-/
namespace Riscv32

/-- Whether the instruction writes the control register that it names, unless it fails. -/
def Instruction.writesCsr (inst : Instruction) (symbols : Symbols) : Bool :=
  if inst.mnemonic ∈ ["csrrw", "csrrwi"] then true
  else if inst.mnemonic ∈ ["csrrs", "csrrc"] then
    (inst.register 2).toOption.any fun rs => decide (rs ≠ Register.zero)
  else if inst.mnemonic ∈ ["csrrsi", "csrrci"] then
    (inst.immediate 2 symbols).toOption.any fun v => decide (v &&& 0x1F ≠ 0)
  else false

/-! ## The timer comparison -/

namespace Csr

/-- The two halves of the timer comparison. -/
def timerPair : List Word := [mtimecmp, mtimecmph]

namespace Store

variable {s : Store} {addr v : Word}

/-- The halves of the timer comparison are the registers that arm the timer. -/
theorem mem_timerPair_iff (hs : s.Virtual) : addr ∈ timerPair ↔
    (s.slot addr).kind = .timerCompareLow ∨ (s.slot addr).kind = .timerCompareHigh := by
  constructor
  · have hlow : (initial.slot mtimecmp).kind = .timerCompareLow := rfl
    have hhigh : (initial.slot mtimecmph).kind = .timerCompareHigh := rfl
    intro haddr
    rw [hs addr]
    simp only [timerPair, List.mem_cons, List.not_mem_nil, or_false] at haddr
    rcases haddr with rfl | rfl
    · exact .inl hlow
    · exact .inr hhigh
  · intro hkind
    have hkinds : ∀ p ∈ initialKinds, p.2 = .timerCompareLow ∨ p.2 = .timerCompareHigh →
        p.1 ∈ timerPair := by decide
    have hregistered : (s.slot addr).kind ≠ .plain := by
      rcases hkind with hkind | hkind <;> rw [hkind] <;> decide
    exact hkinds _ (mem_initialKinds hs hregistered) hkind

/-- A write to a half of the timer comparison asks for the timer to be armed with both. -/
theorem set_of_mem_timerPair (hs : s.Virtual) (haddr : addr ∈ timerPair) (v : Word) :
    (s.set addr v).1 = .armTimer (s.set addr v).2.timerCompare := by
  rw [set_eq]
  rcases (mem_timerPair_iff hs).1 haddr with hkind | hkind <;> rw [hkind]

/-- No other write concerns the timer. -/
theorem set_of_not_mem_timerPair (hs : s.Virtual) (haddr : addr ∉ timerPair) (v : Word) :
    (∀ compare, (s.set addr v).1 ≠ .armTimer compare) ∧
      (s.set addr v).2.timerCompare = s.timerCompare := by
  constructor
  · rw [mem_timerPair_iff hs] at haddr
    intro compare
    rw [set_eq]
    cases hkind : (s.slot addr).kind with
    | timerCompareLow => exact absurd (.inl hkind) haddr
    | timerCompareHigh => exact absurd (.inr hkind) haddr
    | halt =>
      dsimp only
      split <;> exact nofun
    | _ => exact nofun
  · simp only [timerPair, List.mem_cons, List.not_mem_nil, or_false, not_or] at haddr
    rw [timerCompare, timerCompare, raw_set s v haddr.1 (by decide),
      raw_set s v haddr.2 (by decide)]

end Store
end Csr

/-- What a permitted write does to the timer. -/
theorem Hart.timer_of_writeCsr {h h' : Hart} {addr v : Word} (hs : h.csrs.Virtual)
    (hwrite : h.writeCsr addr v = .ok h') :
    (addr ∈ Csr.timerPair → h'.timer = ⟨h'.csrs.timerCompare, true⟩ ∧
      h'.csrs.raw Csr.mip = h.csrs.raw Csr.mip &&& ~~~Csr.timerPending) ∧
    (addr ∉ Csr.timerPair → h'.timer = h.timer ∧ h'.csrs.timerCompare = h.csrs.timerCompare ∧
      (addr ≠ Csr.mip → h'.csrs.raw Csr.mip = h.csrs.raw Csr.mip)) := by
  obtain ⟨-, rfl⟩ := writeCsr_eq_ok hwrite
  have hmip : addr ≠ Csr.mip → (h.csrs.set addr v).2.raw Csr.mip = h.csrs.raw Csr.mip :=
    fun haddr => Csr.Store.raw_set h.csrs v haddr (by decide)
  constructor
  · intro haddr
    have hne : addr ≠ Csr.mip := by
      rintro rfl
      revert haddr
      decide
    have hpair : Csr.mip ≠ Csr.mtimecmp ∧ Csr.mip ≠ Csr.mtimecmph := by decide
    rw [Csr.Store.set_of_mem_timerPair hs haddr]
    simp only [apply, Timer.arm, Csr.Store.timerCompare, Csr.Store.raw_setRaw, hpair, hmip hne,
      if_true, if_false, and_self]
  · intro haddr
    obtain ⟨heffect, hcompare⟩ := Csr.Store.set_of_not_mem_timerPair hs haddr v
    cases hasked : (h.csrs.set addr v).1 with
    | armTimer compare => exact absurd hasked (heffect compare)
    | none => exact ⟨rfl, hcompare, hmip⟩
    | halt code => exact ⟨rfl, hcompare, hmip⟩

/-! ## Control register instructions -/

namespace Exec

variable {α β : Type} {x : Exec α} {f : α → Exec β} {k k' : Hart} {inst : Instruction}
  {handler : Handler}

/-- An action that succeeds succeeds in its first part and, on the hart that this leaves, in its
second. -/
theorem bind_eq_ok {b : β} (hok : (x >>= f) k = .ok b k') :
    ∃ a k₁, x k = .ok a k₁ ∧ f a k₁ = .ok b k' := by
  simp only [Bind.bind, EStateM.bind] at hok
  cases hres : x k with
  | ok a k₁ =>
    rw [hres] at hok
    exact ⟨a, k₁, rfl, hok⟩
  | error e k₁ =>
    rw [hres] at hok
    cases hok

theorem ofExcept_eq_ok {ε : Type} {wrap : ε → ExecError} {r : Except ε α} {a : α}
    (hok : ofExcept wrap r k = .ok a k') : r = .ok a ∧ k' = k := by
  cases r with
  | error e => cases hok
  | ok a' =>
    cases hok
    exact ⟨rfl, rfl⟩

theorem operand_eq_ok {r : Except OperandError α} {a : α}
    (hok : (liftM r : Exec α) k = .ok a k') : r = .ok a ∧ k' = k :=
  ofExcept_eq_ok (hok : ofExcept .operand r k = .ok a k')

/-- A write that is carried out. -/
theorem writeCsr_eq_ok {addr v : Word} (hok : writeCsr addr v k = .ok () k') :
    k.writeCsr addr v = .ok k' := by
  change (ofExcept .csr (k.writeCsr addr v) >>= set) k = _ at hok
  obtain ⟨k₁, k₂, hwrite, hset⟩ := bind_eq_ok hok
  obtain ⟨hwrite, rfl⟩ := ofExcept_eq_ok hwrite
  cases hset
  exact hwrite

theorem readCsr_eq_ok {addr v : Word} (hok : readCsr addr k = .ok v k') : k' = k :=
  (ofExcept_eq_ok (hok : ofExcept .csr (k.readCsr addr) k = .ok v k')).2

/-- What a swap or an update with a mask does: the write, with registers marked before it and
written after it. -/
def WritesCsr (addr : Word) (k k' : Hart) : Prop :=
  ∃ regs v k₁ regs', ({ k with regs } : Hart).writeCsr addr v = .ok k₁ ∧
    k' = { k₁ with regs := regs' }

theorem swapCsr_eq_ok {rd : Nat} {addr v : Word} (hok : swapCsr rd addr v k = .ok () k') :
    ∃ k₁ regs, k.writeCsr addr v = .ok k₁ ∧ k' = { k₁ with regs } := by
  unfold swapCsr at hok
  split at hok
  · exact ⟨k', k'.regs, writeCsr_eq_ok hok, rfl⟩
  · obtain ⟨old, k₁, hread, hrest⟩ := bind_eq_ok hok
    obtain ⟨_, k₂, hwrite, hlast⟩ := bind_eq_ok hrest
    cases hlast
    rw [readCsr_eq_ok hread] at hwrite
    exact ⟨k₂, _, writeCsr_eq_ok hwrite, rfl⟩

theorem updateCsr_eq_ok {rd : Nat} {addr : Word} {mask : Option Word} {op : Word → Word → Word}
    (hok : updateCsr rd addr mask op k = .ok () k') :
    (mask.isSome = true → ∃ v k₁ regs, k.writeCsr addr v = .ok k₁ ∧ k' = { k₁ with regs }) ∧
      (mask.isSome = false → ∃ regs, k' = { k with regs }) := by
  unfold updateCsr at hok
  obtain ⟨old, k₁, hread, hrest⟩ := bind_eq_ok hok
  rw [readCsr_eq_ok hread] at hrest
  cases mask with
  | none =>
    cases hrest
    exact ⟨nofun, fun _ => ⟨_, rfl⟩⟩
  | some m =>
    obtain ⟨_, k₂, hwrite, hlast⟩ := bind_eq_ok hrest
    cases hlast
    exact ⟨fun _ => ⟨_, k₂, _, writeCsr_eq_ok hwrite, rfl⟩, nofun⟩

/-- A source that reads nothing but registers and immediates. -/
def Reads (source : Instruction → Exec α) : Prop :=
  ∀ inst k a k', source inst k = .ok a k' → ∃ regs, k' = { k with regs }

/-- The source of an update gives a mask if the instruction writes. -/
def Masks (source : Instruction → Exec (Option Word)) (writes : Instruction → Symbols → Bool) :
    Prop :=
  ∀ inst k mask k', source inst k = .ok mask k' →
    (∃ regs, k' = { k with regs }) ∧ mask.isSome = writes inst k.memory.symbol?

theorem reads_registerSource : Reads registerSource := by
  intro inst k v k' hok
  obtain ⟨rs, k₁, hrs, hread⟩ := bind_eq_ok hok
  rw [(operand_eq_ok hrs).2] at hread
  cases hread
  exact ⟨_, rfl⟩

theorem smallImmediate_eq_ok {v : Word} (hok : smallImmediate inst k = .ok v k') :
    (inst.immediate 2 k.memory.symbol?).toOption.map (· &&& 0x1F) = some v ∧ k' = k := by
  obtain ⟨imm, k₁, himm, hlow⟩ := bind_eq_ok hok
  obtain ⟨hvalue, hsame⟩ := operand_eq_ok (r := inst.immediate 2 k.memory.symbol?) himm
  cases hlow
  rw [hvalue]
  exact ⟨rfl, hsame⟩

theorem reads_smallImmediate : Reads smallImmediate := by
  intro inst k v k' hok
  exact ⟨k.regs, (smallImmediate_eq_ok hok).2⟩

theorem masks_registerMask : Masks registerMask fun inst _ =>
    (inst.register 2).toOption.any fun rs => decide (rs ≠ Register.zero) := by
  intro inst k mask k' hok
  obtain ⟨rs, k₁, hrs, hread⟩ := bind_eq_ok hok
  obtain ⟨hvalue, hsame⟩ := operand_eq_ok hrs
  rw [hsame] at hread
  dsimp only
  rw [hvalue]
  split at hread
  case isTrue hzero =>
    cases hread
    exact ⟨⟨_, rfl⟩, by simp [Except.toOption, hzero]⟩
  case isFalse hzero =>
    cases hread
    exact ⟨⟨_, rfl⟩, by simp [Except.toOption, hzero]⟩

theorem masks_immediateMask : Masks immediateMask fun inst symbols =>
    (inst.immediate 2 symbols).toOption.any fun v => decide (v &&& 0x1F ≠ 0) := by
  intro inst k mask k' hok
  obtain ⟨v, k₁, hv, hlast⟩ := bind_eq_ok hok
  obtain ⟨hvalue, hsame⟩ := smallImmediate_eq_ok hv
  obtain ⟨imm, himm, rfl⟩ := Option.map_eq_some_iff.1 hvalue
  rw [hsame] at hlast
  cases hlast
  dsimp only
  rw [himm]
  refine ⟨⟨_, rfl⟩, ?_⟩
  by_cases hzero : imm &&& 0x1F = 0
  · rw [if_pos hzero, Option.any_some, decide_eq_false (not_not_intro hzero)]
    rfl
  · rw [if_neg hzero, Option.any_some, decide_eq_true hzero]
    rfl

/-- A swap writes the register that it names. -/
theorem csrSwap_eq_ok {source : Instruction → Exec Word} (hsource : Reads source)
    (hok : csrSwap source inst k = .ok () k') :
    ∃ addr, inst.csr 1 = .ok addr ∧ WritesCsr addr k k' := by
  obtain ⟨rd, k₁, hrd, hrest⟩ := bind_eq_ok hok
  obtain ⟨addr, k₂, haddr, hrest⟩ := bind_eq_ok hrest
  obtain ⟨v, k₃, hv, hswap⟩ := bind_eq_ok hrest
  obtain ⟨haddr, hsame⟩ := operand_eq_ok haddr
  rw [hsame, (operand_eq_ok hrd).2] at hv
  obtain ⟨regs, hregs⟩ := hsource _ _ _ _ hv
  rw [hregs] at hswap
  obtain ⟨k₄, regs', hwrite, heq⟩ := swapCsr_eq_ok hswap
  exact ⟨addr, haddr, regs, v, k₄, regs', hwrite, heq⟩

/-- An update writes it if its source gives a mask. -/
theorem csrUpdate_eq_ok {source : Instruction → Exec (Option Word)}
    {writes : Instruction → Symbols → Bool} {op : Word → Word → Word}
    (hsource : Masks source writes) (hok : csrUpdate source op inst k = .ok () k') :
    ∃ addr, inst.csr 1 = .ok addr ∧
      (writes inst k.memory.symbol? = true → WritesCsr addr k k') ∧
      (writes inst k.memory.symbol? = false → ∃ regs, k' = { k with regs }) := by
  obtain ⟨rd, k₁, hrd, hrest⟩ := bind_eq_ok hok
  obtain ⟨addr, k₂, haddr, hrest⟩ := bind_eq_ok hrest
  obtain ⟨mask, k₃, hmask, hupdate⟩ := bind_eq_ok hrest
  obtain ⟨haddr, hsame⟩ := operand_eq_ok haddr
  rw [hsame, (operand_eq_ok hrd).2] at hmask
  obtain ⟨⟨regs, hregs⟩, hwrites⟩ := hsource _ _ _ _ hmask
  rw [hregs] at hupdate
  obtain ⟨hsome, hnone⟩ := updateCsr_eq_ok hupdate
  rw [← hwrites]
  refine ⟨addr, haddr, fun hmasked => ?_, fun hmasked => ?_⟩
  · obtain ⟨v, k₄, regs', hwrite, heq⟩ := hsome hmasked
    exact ⟨regs, v, k₄, regs', hwrite, heq⟩
  · obtain ⟨regs', heq⟩ := hnone hmasked
    exact ⟨regs', heq⟩

/-- A control register instruction that succeeds writes the register that it names if it is one of
those that do, and otherwise changes nothing but integer registers. -/
theorem eq_of_csrHandler (hmem : (inst.mnemonic, handler) ∈ csrHandlers)
    (hok : handler inst k = .ok () k') :
    ∃ addr, inst.csr 1 = .ok addr ∧
      (inst.writesCsr k.memory.symbol? = true → WritesCsr addr k k') ∧
      (inst.writesCsr k.memory.symbol? = false → ∃ regs, k' = { k with regs }) := by
  simp only [csrHandlers, List.mem_cons, Prod.mk.injEq, List.not_mem_nil, or_false] at hmem
  unfold Instruction.writesCsr
  rcases hmem with ⟨hname, rfl⟩ | ⟨hname, rfl⟩ | ⟨hname, rfl⟩ | ⟨hname, rfl⟩ | ⟨hname, rfl⟩ |
    ⟨hname, rfl⟩
  all_goals
    simp only [hname, List.mem_cons, List.not_mem_nil, String.reduceEq, or_true, or_false, or_self,
      if_true, if_false]
  case inl =>
    obtain ⟨addr, haddr, hwrites⟩ := csrSwap_eq_ok reads_registerSource hok
    exact ⟨addr, haddr, fun _ => hwrites, Bool.noConfusion⟩
  case inr.inr.inr.inl =>
    obtain ⟨addr, haddr, hwrites⟩ := csrSwap_eq_ok reads_smallImmediate hok
    exact ⟨addr, haddr, fun _ => hwrites, Bool.noConfusion⟩
  case inr.inl => exact csrUpdate_eq_ok masks_registerMask hok
  case inr.inr.inl => exact csrUpdate_eq_ok masks_registerMask hok
  case inr.inr.inr.inr.inl => exact csrUpdate_eq_ok masks_immediateMask hok
  case inr.inr.inr.inr.inr => exact csrUpdate_eq_ok masks_immediateMask hok

/-! ## All other instructions -/

/-- The timer and the control registers are the same, but for `mstatus` and `fcsr`. -/
def SameRegisters (h h' : Hart) : Prop :=
  h'.timer = h.timer ∧ ∀ addr, Csr.mstatus ≠ addr → Csr.fcsr ≠ addr →
    h'.csrs.slot addr = h.csrs.slot addr

theorem respects_sameRegisters {can : Powers} (hcontrols : ¬ can.controls) :
    Respects can SameRegisters where
  refl _ := ⟨rfl, fun _ _ _ => rfl⟩
  trans h₁₂ h₂₃ := ⟨h₂₃.1.trans h₁₂.1, fun addr hmstatus hfcsr =>
    (h₂₃.2 addr hmstatus hfcsr).trans (h₁₂.2 addr hmstatus hfcsr)⟩
  markRead _ _ := ⟨rfl, fun _ _ _ => rfl⟩
  search _ _ _ _ := ⟨rfl, fun _ _ _ => rfl⟩
  reservation _ _ := ⟨rfl, fun _ _ _ => rfl⟩
  syscall _ _ := ⟨rfl, fun _ _ _ => rfl⟩
  regs _ _ := ⟨rfl, fun _ _ _ => rfl⟩
  accrue h flags := by
    unfold Hart.accrue
    split
    · exact ⟨rfl, fun _ _ _ => rfl⟩
    · exact ⟨rfl, fun addr _ hfcsr => Csr.Store.slot_setRaw_of_ne hfcsr _⟩
  reserve _ _ _ := ⟨rfl, fun _ _ _ => rfl⟩
  waiting _ _ := ⟨rfl, fun _ _ _ => rfl⟩
  write _ _ _ := ⟨rfl, fun _ _ _ => rfl⟩
  pc _ _ := ⟨rfl, fun _ _ _ => rfl⟩
  writeCsr hcan := absurd hcan hcontrols
  halt _ _ _ _ := ⟨rfl, fun _ _ _ => rfl⟩
  machineReturn _ h _ := ⟨rfl, fun _ hmstatus _ => Hart.slot_returnFromTrap h hmstatus⟩

/-- What an instruction that fails has not changed. -/
def SameControls (h h' : Hart) : Prop := h'.csrs = h.csrs ∧ h'.timer = h.timer

theorem unseen_sameControls {drops : Prop} : Unseen drops SameControls where
  refl _ := ⟨rfl, rfl⟩
  trans h₁₂ h₂₃ := ⟨h₂₃.1.trans h₁₂.1, h₂₃.2.trans h₁₂.2⟩
  markRead _ _ := ⟨rfl, rfl⟩
  search _ _ _ _ := ⟨rfl, rfl⟩
  reservation _ _ := ⟨rfl, rfl⟩
  syscall _ _ := ⟨rfl, rfl⟩

theorem SameControls.sameRegisters {h h' : Hart} (hsame : SameControls h h') :
    SameRegisters h h' :=
  ⟨hsame.2, fun addr _ _ => congrArg (fun s => Csr.Store.slot s addr) hsame.1⟩

end Exec

/-! ## Steps -/

namespace Hart

variable {table : DispatchTable} {sets : List InstructionSet} {h k k' : Hart} {inst : Instruction}
  {addr : Word}

/-- The control register that the next step writes, if it writes one. -/
def written? (table : DispatchTable) (h : Hart) : Option Word :=
  h.executing?.bind fun (inst, k) =>
    if completes table inst k && inst.writesCsr k.memory.symbol? then (inst.csr 1).toOption
    else none

/-- An instruction that writes a control register is a control register instruction. -/
theorem mnemonic_of_writesCsr {symbols : Symbols} (hwrites : inst.writesCsr symbols = true) :
    inst.mnemonic ∈ Exec.csrHandlers.map Prod.fst := by
  have hswaps : ∀ name ∈ ["csrrw", "csrrwi"], name ∈ Exec.csrHandlers.map Prod.fst := by decide
  have hregisters : ∀ name ∈ ["csrrs", "csrrc"], name ∈ Exec.csrHandlers.map Prod.fst := by decide
  have himmediates : ∀ name ∈ ["csrrsi", "csrrci"], name ∈ Exec.csrHandlers.map Prod.fst := by
    decide
  unfold Instruction.writesCsr at hwrites
  split at hwrites
  case isTrue hname => exact hswaps _ hname
  split at hwrites
  case isTrue hname => exact hregisters _ hname
  split at hwrites
  case isTrue hname => exact himmediates _ hname
  case isFalse => cases hwrites

theorem written?_eq_some (hw : h.written? table = some addr) : ∃ inst k, ∃ handler : Handler, ∃ k',
    h.executing? = some (inst, k) ∧ table.handler? inst.mnemonic = some handler ∧
      handler inst k = .ok () k' ∧ inst.writesCsr k.memory.symbol? = true ∧
      inst.csr 1 = .ok addr := by
  obtain ⟨⟨inst, k⟩, hx, hwrites⟩ := Option.bind_eq_some_iff.1 hw
  dsimp only at hwrites
  split at hwrites
  case isFalse => cases hwrites
  case isTrue hcond =>
    obtain ⟨hcompletes, hcond⟩ := Bool.and_eq_true_iff.1 hcond
    unfold completes at hcompletes
    split at hcompletes
    · cases hcompletes
    case h_2 handler hfind =>
      split at hcompletes
      case h_1 k' hok =>
        refine ⟨inst, k, handler, k', hx, hfind, hok, hcond, ?_⟩
        cases hcsr : inst.csr 1 with
        | error e =>
          rw [hcsr] at hwrites
          cases hwrites
        | ok addr' =>
          rw [hcsr] at hwrites
          cases hwrites
          rfl
      · cases hcompletes

/-- The boundary and the fetch are done with before the instruction. -/
theorem sameControls_of_executing? (hx : h.executing? = some (inst, k)) :
    Exec.SameControls h.started k := by
  obtain ⟨memory, rfl⟩ := eq_of_executing? hx
  exact ⟨rfl, rfl⟩

section Table

variable (hsets : ∀ s ∈ sets, s ∈ InstructionSet.standard)
  (hbuild : DispatchTable.build sets = .ok table)

include hsets hbuild

/-- Under a mnemonic of the control register instructions a table finds just those. -/
theorem mem_csrHandlers {handler : Handler} (hfind : table.handler? inst.mnemonic = some handler)
    (hname : inst.mnemonic ∈ Exec.csrHandlers.map Prod.fst) :
    (inst.mnemonic, handler) ∈ Exec.csrHandlers := by
  obtain ⟨r, hr, hfst⟩ := List.mem_map.1 hname
  rw [← hfst] at hfind ⊢
  rw [DispatchTable.handler?_eq_of_mem hsets hbuild (s := .controlRegister)
    (by simp [InstructionSet.standard]) hr hfind]
  exact hr

/-- A step that writes a control register is one of an instruction that does, and what is left of
the hart but for integer registers is what the write leaves. -/
theorem instructed_of_written? (hw : h.written? table = some addr) :
    ∃ (k : Hart) (v : Word) (k' : Hart) (regs : RegisterFile),
      Exec.SameControls h.started k ∧ k.writeCsr addr v = .ok k' ∧
      h.instructed table = { k' with regs } := by
  obtain ⟨inst, k, handler, k', hx, hfind, hok, hwrites, haddr⟩ := written?_eq_some hw
  obtain ⟨addr', haddr', hwriting, -⟩ := Exec.eq_of_csrHandler
    (mem_csrHandlers hsets hbuild hfind (mnemonic_of_writesCsr hwrites)) hok
  rw [haddr] at haddr'
  cases haddr'
  obtain ⟨regs, v, k₁, regs', hwrite, heq⟩ := hwriting hwrites
  have hk := sameControls_of_executing? hx
  refine ⟨{ k with regs }, v, k₁, regs', ⟨hk.1, hk.2⟩, hwrite, ?_⟩
  simp only [instructed, hx, hfind, stateAfter, hok]
  exact heq

/-- In any other step the instruction changes `mstatus` and `fcsr` at most, and not the timer. -/
theorem instructed_of_written?_eq_none (hw : h.written? table = none) :
    Exec.SameRegisters h.started (h.instructed table) := by
  cases hx : h.executing? with
  | none =>
    simp only [instructed, hx]
    exact ⟨rfl, fun _ _ _ => rfl⟩
  | some executed =>
    obtain ⟨inst, k⟩ := executed
    have hk := (sameControls_of_executing? hx).sameRegisters
    cases hfind : table.handler? inst.mnemonic with
    | none =>
      simp only [instructed, hx, hfind]
      exact hk
    | some handler =>
      simp only [instructed, hx, hfind]
      have hacts := DispatchTable.acts_of_handler? hsets hbuild hfind inst
      have hnone : ¬ Exec.Powers.none.controls := not_false
      refine (Exec.respects_sameRegisters hnone).trans hk ?_
      by_cases hname : inst.mnemonic ∈ Exec.csrHandlers.map Prod.fst
      · cases hres : handler inst k with
        | error e k' =>
          simp only [stateAfter, hres]
          exact (hacts.keepsOnError Exec.unseen_sameControls k e k' hres).sameRegisters
        | ok a k' =>
          simp only [stateAfter, hres]
          obtain ⟨addr, haddr, -, hidle⟩ := Exec.eq_of_csrHandler
            (mem_csrHandlers hsets hbuild hfind hname) hres
          have hnot : inst.writesCsr k.memory.symbol? = false := by
            by_contra hwrites
            have hcompletes : completes table inst k = true := by
              simp only [completes, hfind, hres]
            simp only [written?, hx, Option.bind_some, hcompletes,
              Bool.not_eq_false _ ▸ hwrites, Bool.and_self, if_true, haddr] at hw
            cases hw
          obtain ⟨regs, rfl⟩ := hidle hnot
          exact ⟨rfl, fun _ _ _ => rfl⟩
      · exact hacts.keeps (Exec.respects_sameRegisters hname) k

/-- What the instruction of a step does to the timer: a write to a half of the timer comparison arms
it with both halves, as they are then, and withdraws the timer bit; anything else leaves it alone,
and the timer bit too unless it writes `mip`. -/
theorem timer_instructed (hs : h.started.csrs.Virtual) :
    ((∃ addr ∈ Csr.timerPair, h.written? table = some addr) →
      (h.instructed table).timer = ⟨(h.instructed table).csrs.timerCompare, true⟩ ∧
      (h.instructed table).csrs.raw Csr.mip
        = h.started.csrs.raw Csr.mip &&& ~~~Csr.timerPending) ∧
    ((∀ addr ∈ Csr.timerPair, h.written? table ≠ some addr) →
      (h.instructed table).timer = h.started.timer ∧
      (h.instructed table).csrs.timerCompare = h.started.csrs.timerCompare ∧
      (h.written? table ≠ some Csr.mip →
        (h.instructed table).csrs.raw Csr.mip = h.started.csrs.raw Csr.mip)) := by
  constructor
  · rintro ⟨addr, haddr, hw⟩
    obtain ⟨k, v, k', regs, hk, hwrite, heq⟩ := instructed_of_written? hsets hbuild hw
    obtain ⟨htimer, hmip⟩ := (timer_of_writeCsr (hk.1 ▸ hs) hwrite).1 haddr
    rw [heq, ← hk.1]
    exact ⟨htimer, hmip⟩
  · intro hother
    cases hw : h.written? table with
    | none =>
      obtain ⟨htimer, hslot⟩ := instructed_of_written?_eq_none hsets hbuild hw
      have hraw : ∀ addr, Csr.mstatus ≠ addr → Csr.fcsr ≠ addr →
          (h.instructed table).csrs.raw addr = h.started.csrs.raw addr :=
        fun addr hmstatus hfcsr => congrArg Csr.Slot.raw (hslot addr hmstatus hfcsr)
      refine ⟨htimer, ?_, fun _ => hraw _ (by decide) (by decide)⟩
      rw [Csr.Store.timerCompare, Csr.Store.timerCompare, hraw _ (by decide) (by decide),
        hraw _ (by decide) (by decide)]
    | some addr =>
      obtain ⟨k, v, k', regs, hk, hwrite, heq⟩ := instructed_of_written? hsets hbuild hw
      have haddr : addr ∉ Csr.timerPair := fun haddr => hother addr haddr hw
      obtain ⟨htimer, hcompare, hmip⟩ := (timer_of_writeCsr (hk.1 ▸ hs) hwrite).2 haddr
      rw [heq, ← hk.1, ← hk.2]
      exact ⟨htimer, hcompare, fun hne => hmip fun heq => hne (congrArg some heq)⟩

end Table

end Hart
end Riscv32
