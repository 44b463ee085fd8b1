import Riscv32.Proofs.Hart.Control

/-!
# Reservations along a run

The reservation is one slot, and three things touch it: a load-reserved that completes fills it, and
a conditional store that gets past its checks empties it, as does the delivery of a trap. So the
last of these in a run tells what the slot holds: an address precisely if it was a load-reserved.
What a conditional store does is thereby a matter of the run alone. Everything else leaves the slot
as it is: other stores, a load-reserved that fails, a conditional store that is refused its operands
or its address, the return from a trap.

## Main definitions

* `ReservationEvent` — what touches the reservation.
* `Hart.deliveryEvents h`, `Hart.instructionEvents table h` — the events of the next step, at its
  boundary and in its instruction.
* `Hart.reservationLog table steps` — the events of a run, in their order.

## Main statements

* `Exec.storeConditional_eq`, a conditional store past its checks.
* `Hart.Trail.reservation`, the reservation after a run.
* `Hart.storeConditional_of_log`, a conditional store after a run.
-/
namespace Riscv32

/-- What touches the reservation. -/
inductive ReservationEvent
  /-- A trap was delivered. -/
  | trap
  /-- A load-reserved completed. -/
  | loaded (addr : Word)
  /-- A conditional store got past the checks of its operands and its address. -/
  | conditional (addr : Word)
  deriving DecidableEq

/-- The reservation after the event. -/
def ReservationEvent.held : ReservationEvent → Option Word
  | trap => none
  | loaded addr => some addr
  | conditional _ => none

/-- The reservation after a series of events, if there was none before them. -/
def ReservationEvent.heldAfter (log : List ReservationEvent) : Option Word :=
  log.getLast?.bind held

/-- An address is held after a load-reserved from it that nothing has followed, and only then. -/
theorem ReservationEvent.heldAfter_eq_some {log : List ReservationEvent} {addr : Word} :
    heldAfter log = some addr ↔ log.getLast? = some (.loaded addr) := by
  rw [heldAfter, Option.bind_eq_some_iff]
  constructor
  · rintro ⟨e, hlast, he⟩
    cases e with
    | trap => cases he
    | conditional _ => cases he
    | loaded _ =>
      cases he
      exact hlast
  · exact fun hlast => ⟨_, hlast, rfl⟩

/-! ## The two instructions -/

namespace Exec

variable {inst : Instruction} {k k' : Hart} {rd base source : Nat}

/-- The address of a conditional store that gets past the checks of its operands and its address. -/
def conditionalAddress? (inst : Instruction) (k : Hart) : Option Word :=
  match inst.register 0, inst.register 1, inst.register 2 with
  | .ok _, .ok base, .ok _ => if (k.regs.peek base).isAligned then some (k.regs.peek base) else none
  | _, _, _ => none

/-- The address in a register is checked after the register was read. -/
theorem alignedAddress_eq (misaligned : Word → Trap) (hbase : inst.register 1 = .ok base)
    (k : Hart) : alignedAddress misaligned inst k =
      if (k.regs.peek base).isAligned then
        .ok (k.regs.peek base) { k with regs := k.regs.markRead base }
      else
        .error (.trap (misaligned (k.regs.peek base))) { k with regs := k.regs.markRead base } := by
  rw [alignedAddress, bind_of_ok (operand_of_ok hbase k)]
  change (if (k.regs.peek base).isAligned then pure _ else trap _ : Exec Word)
    { k with regs := k.regs.markRead base } = _
  split <;> rfl

/-- Past its checks a conditional store gives up the reservation. If it was held on the address, the
store is made, and zero is written if it succeeds; otherwise one is written and no memory
changes. -/
theorem storeConditional_eq (hrd : inst.register 0 = .ok rd) (hbase : inst.register 1 = .ok base)
    (hsource : inst.register 2 = .ok source) (ha : (k.regs.peek base).isAligned = true) :
    storeConditional inst k =
      if k.reservation = some (k.regs.peek base) then
        match AddressSpace.writeNat (k.regs.peek base) 4 (k.regs.peek source).toNat k.memory with
        | .ok _ memory => .ok () { k with
            regs := ((k.regs.markRead base).markRead source).write rd 0
            memory, reservation := none }
        | .error e memory => .error (.memory e) { k with
            regs := (k.regs.markRead base).markRead source
            memory, reservation := none }
      else .ok () { k with
        regs := ((k.regs.markRead base).markRead source).write rd 1
        reservation := none } := by
  have haddr := alignedAddress_eq .storeAddressMisaligned hbase k
  rw [if_pos ha] at haddr
  rw [storeConditional, bind_of_ok (operand_of_ok hrd k), bind_of_ok haddr,
    bind_of_ok (operand_of_ok hsource _)]
  change (if (k.reservation == some (k.regs.peek base)) = true then
      do store (k.regs.peek base) 4 (k.regs.peek source).toNat; writeX rd 0
    else writeX rd 1 : Exec Unit) { k with
      regs := (k.regs.markRead base).markRead source
      reservation := none } = _
  by_cases hheld : k.reservation = some (k.regs.peek base)
  · rw [if_pos (beq_iff_eq.2 hheld), if_pos hheld]
    simp only [Bind.bind, EStateM.bind, store, access]
    cases AddressSpace.writeNat (k.regs.peek base) 4 (k.regs.peek source).toNat k.memory <;> rfl
  · rw [if_neg (mt beq_iff_eq.1 hheld), if_neg hheld]
    rfl

/-- A conditional store that is refused changes nothing but the mark of the register read last. -/
theorem storeConditional_of_refused (hnone : conditionalAddress? inst k = none) :
    ∃ e regs, storeConditional inst k = .error e { k with regs } := by
  cases hrd : inst.register 0 with
  | error e =>
    rw [storeConditional, bind_of_error (operand_of_error hrd k)]
    exact ⟨_, _, rfl⟩
  | ok rd =>
    rw [storeConditional, bind_of_ok (operand_of_ok hrd k)]
    cases hbase : inst.register 1 with
    | error e =>
      rw [alignedAddress, bind_of_error (bind_of_error (operand_of_error hbase k))]
      exact ⟨_, _, rfl⟩
    | ok base =>
      have haddr := alignedAddress_eq .storeAddressMisaligned hbase k
      split at haddr
      case isFalse =>
        rw [bind_of_error haddr]
        exact ⟨_, _, rfl⟩
      case isTrue ha =>
        rw [bind_of_ok haddr]
        cases hsource : inst.register 2 with
        | error e =>
          rw [bind_of_error (operand_of_error rfl _)]
          exact ⟨_, _, rfl⟩
        | ok source =>
          simp only [conditionalAddress?, hrd, hbase, hsource, ha, if_true] at hnone
          cases hnone

/-- Whatever a conditional store does past its checks, it holds no reservation afterwards. -/
theorem reservation_storeConditional {addr : Word}
    (hsome : conditionalAddress? inst k = some addr) :
    (stateAfter (storeConditional inst) k).reservation = none := by
  unfold conditionalAddress? at hsome
  split at hsome
  case h_1 rd base source hrd hbase hsource =>
    split at hsome
    case isTrue ha =>
      by_cases hheld : k.reservation = some (k.regs.peek base)
      · simp only [stateAfter, storeConditional_eq hrd hbase hsource ha, if_pos hheld]
        cases AddressSpace.writeNat (k.regs.peek base) 4 (k.regs.peek source).toNat k.memory <;> rfl
      · simp only [stateAfter, storeConditional_eq hrd hbase hsource ha, if_neg hheld]
    case isFalse => cases hsome
  case h_2 => cases hsome

/-- A load-reserved that completes holds a reservation on the address in its register. -/
theorem reservation_of_loadReserved (hok : loadReserved inst k = .ok () k') :
    ∃ base, inst.register 1 = .ok base ∧ k'.reservation = some (k.regs.peek base) := by
  obtain ⟨rd, k₁, hrd, hrest⟩ := bind_eq_ok hok
  rw [(operand_eq_ok hrd).2] at hrest
  obtain ⟨addr, k₂, haddr, hrest⟩ := bind_eq_ok hrest
  obtain ⟨v, k₃, hload, hlast⟩ := bind_eq_ok hrest
  obtain ⟨base, k₄, hbase, -⟩ := bind_eq_ok haddr
  have hbase := (operand_eq_ok hbase).1
  rw [alignedAddress_eq _ hbase] at haddr
  split at haddr
  case isFalse => cases haddr
  case isTrue =>
    cases haddr
    cases hlast
    exact ⟨base, hbase, rfl⟩

/-- The reservation is the same. -/
def SameReservation (h h' : Hart) : Prop := h'.reservation = h.reservation

/-- No other instruction touches the reservation, nor does a load-reserved that fails. -/
theorem respects_sameReservation {can : Powers} (hreserves : ¬ can.reserves)
    (hdrops : ¬ can.drops) : Respects can SameReservation where
  refl _ := rfl
  trans h₁₂ h₂₃ := h₂₃.trans h₁₂
  markRead _ _ := rfl
  search _ _ _ _ := rfl
  reservation hcan := absurd hcan hdrops
  syscall _ _ := rfl
  regs _ _ := rfl
  accrue h flags := by
    unfold Hart.accrue
    split <;> rfl
  reserve hcan := absurd hcan hreserves
  waiting _ _ := rfl
  write _ _ _ := rfl
  pc _ _ := rfl
  writeCsr _ h addr v h' hwrite := by
    obtain ⟨-, rfl⟩ := Hart.writeCsr_eq_ok hwrite
    cases (h.csrs.set addr v).1 <;> rfl
  halt _ _ _ _ := rfl
  machineReturn _ _ _ := rfl

theorem unseen_sameReservation {drops : Prop} (hdrops : ¬ drops) :
    Unseen drops SameReservation where
  refl _ := rfl
  trans h₁₂ h₂₃ := h₂₃.trans h₁₂
  markRead _ _ := rfl
  search _ _ _ _ := rfl
  reservation hcan := absurd hcan hdrops
  syscall _ _ := rfl

end Exec

/-! ## Steps -/

namespace Hart

open ReservationEvent (heldAfter)

variable {table : DispatchTable} {sets : List InstructionSet} {host : Trap → Prop}
  {h h₀ k : Hart} {inst : Instruction} {steps : List Hart} {log : List ReservationEvent}

/-- The event of an instruction. -/
def reservationEvent? (table : DispatchTable) (inst : Instruction) (k : Hart) :
    Option ReservationEvent :=
  if inst.mnemonic = "lr.w" then
    if completes table inst k then
      (inst.register 1).toOption.map fun base => .loaded (k.regs.peek base)
    else none
  else if inst.mnemonic = "sc.w" then (Exec.conditionalAddress? inst k).map .conditional
  else none

/-- The event at the boundary of the next step. -/
def deliveryEvents (h : Hart) : List ReservationEvent := (h.delivered?.map fun _ => .trap).toList

/-- The event in the instruction of the next step, if the table has a handler for it. -/
def instructionEvents (table : DispatchTable) (h : Hart) : List ReservationEvent :=
  (h.executing?.bind fun (inst, k) =>
    if (table.handler? inst.mnemonic).isSome then reservationEvent? table inst k else none).toList

/-- The events of the next step. -/
def reservationEvents (table : DispatchTable) (h : Hart) : List ReservationEvent :=
  h.deliveryEvents ++ h.instructionEvents table

/-- The events of a run, in their order. -/
def reservationLog (table : DispatchTable) (steps : List Hart) : List ReservationEvent :=
  steps.flatMap (reservationEvents table)

/-- A boundary gives up the reservation if it delivers a trap. -/
theorem reservation_started (h : Hart) :
    h.started.reservation = if h.delivered?.isSome then none else h.reservation := by
  have hpolled : h.pollTimer.reservation = h.reservation := by
    unfold pollTimer
    split <;> rfl
  rw [started_eq, delivered?]
  by_cases hdone : (h.halted || h.spent.isSome || !h.privileged) = true
  · rw [if_pos hdone, if_pos hdone]
    rfl
  · rw [if_neg hdone, if_neg hdone]
    rcases deliverTrap_eq h.pollTimer with hd | ⟨e, traps, hd⟩
    · rw [hd]
      exact hpolled
    · rw [hd]
      rfl

theorem held_started (hheld : h.reservation = heldAfter log) :
    h.started.reservation = heldAfter (log ++ h.deliveryEvents) := by
  rw [reservation_started, deliveryEvents]
  cases h.delivered? with
  | none =>
    rw [Option.map_none, Option.toList_none, List.append_nil]
    exact hheld
  | some e =>
    rw [heldAfter, Option.map_some, Option.toList_some, List.getLast?_concat]
    rfl

/-- The hart after a conditional store that finds no reservation on its address. -/
def declined (k : Hart) (rd base source : Nat) : Hart :=
  { k with
    regs := ((k.regs.markRead base).markRead source).write rd 1
    reservation := none
    instret := k.instret + 1 }

section Table

variable (hsets : ∀ s ∈ sets, s ∈ InstructionSet.standard)
  (hbuild : DispatchTable.build sets = .ok table)

include hsets hbuild

/-- Under a mnemonic of the atomic instructions a table finds what they have there. -/
theorem handler_eq_of_atomic {handler handler' : Handler}
    (hfind : table.handler? inst.mnemonic = some handler)
    (hatomic : (inst.mnemonic, handler') ∈ Exec.atomicHandlers) : handler = handler' :=
  DispatchTable.handler?_eq_of_mem hsets hbuild (s := .atomic)
    (by simp [InstructionSet.standard]) hatomic hfind

/-- An instruction leaves the reservation of its event, or the one from before if it has none. -/
theorem held_instruction {handler : Handler} (hfind : table.handler? inst.mnemonic = some handler)
    (hheld : k.reservation = heldAfter log) :
    (stateAfter (handler inst) k).reservation =
      heldAfter (log ++ (reservationEvent? table inst k).toList) := by
  have hacts := DispatchTable.acts_of_handler? hsets hbuild hfind inst
  -- the two atomic instructions by what they do, all others by the shape that they share
  unfold reservationEvent?
  split
  case isTrue hname =>
    have hhandler : handler = Exec.loadReserved := handler_eq_of_atomic hsets hbuild hfind
      (by simp [hname, Exec.atomicHandlers])
    have hdrops : ¬ (Exec.Powers.ofMnemonic inst.mnemonic).drops := by
      change inst.mnemonic ≠ "sc.w"
      rw [hname]
      decide
    cases hres : handler inst k with
    | error e k' =>
      have hsame : k'.reservation = k.reservation :=
        hacts.keepsOnError (Exec.unseen_sameReservation hdrops) k e k' hres
      simp only [completes, hfind, hres, Bool.false_eq_true, if_false, Option.toList_none,
        List.append_nil, stateAfter]
      exact hsame.trans hheld
    | ok a k' =>
      have hcompletes : completes table inst k = true := by simp only [completes, hfind, hres]
      obtain ⟨base, hbase, hreserved⟩ := Exec.reservation_of_loadReserved (hhandler ▸ hres)
      rw [if_pos hcompletes, hbase, heldAfter, stateAfter, hres]
      change k'.reservation = (log ++ [_]).getLast?.bind _
      rw [List.getLast?_concat]
      exact hreserved
  case isFalse hreserves =>
  split
  case isTrue hname =>
    have hhandler : handler = Exec.storeConditional := handler_eq_of_atomic hsets hbuild hfind
      (by simp [hname, Exec.atomicHandlers])
    rw [hhandler]
    cases haddr : Exec.conditionalAddress? inst k with
    | none =>
      obtain ⟨e, regs, hrefused⟩ := Exec.storeConditional_of_refused haddr
      rw [Option.map_none, Option.toList_none, List.append_nil, stateAfter, hrefused]
      exact hheld
    | some addr =>
      rw [Exec.reservation_storeConditional haddr, Option.map_some, Option.toList_some,
        heldAfter, List.getLast?_concat]
      rfl
  case isFalse hdrops =>
    rw [Option.toList_none, List.append_nil, ← hheld]
    exact hacts.keeps (Exec.respects_sameReservation hreserves hdrops) k

/-- A step leaves the reservation of its events. -/
theorem held_stepped (hheld : h.reservation = heldAfter log) :
    (h.stepped table).reservation = heldAfter (log ++ h.reservationEvents table) := by
  have hinstructed : (h.stepped table).reservation = (h.instructed table).reservation := by
    obtain ⟨pc, instructionPc, memory, cycle, instret, halted, exitCode, waiting, traps,
      hstepped⟩ := stepped_frame table h
    rw [hstepped]
  have hstarted := held_started hheld
  rw [hinstructed, reservationEvents, ← List.append_assoc, instructed, instructionEvents]
  cases hx : h.executing? with
  | none =>
    rw [Option.bind_none, Option.toList_none, List.append_nil]
    exact hstarted
  | some executed =>
    obtain ⟨inst, k⟩ := executed
    obtain ⟨memory, hk⟩ := eq_of_executing? hx
    have hbefore : k.reservation = heldAfter (log ++ h.deliveryEvents) := by
      rw [hk]
      exact hstarted
    dsimp only [Option.bind_some]
    cases hfind : table.handler? inst.mnemonic with
    | none =>
      rw [Option.isSome_none, if_neg Bool.false_ne_true, Option.toList_none, List.append_nil]
      exact hbefore
    | some handler =>
      rw [Option.isSome_some, if_pos rfl]
      exact held_instruction hsets hbuild hfind hbefore

/-! ## Runs -/

/-- The reservation after a run is that of its last event. -/
theorem Trail.reservation (hstart : h₀.reservation = none)
    (htrail : Trail table host h₀ steps h) :
    h.reservation = heldAfter (reservationLog table steps) := by
  induction htrail with
  | start => exact hstart
  | step _ ih =>
    rw [reservationLog, List.flatMap_append, List.flatMap_singleton]
    exact held_stepped hsets hbuild ih
  | elapse ticks _ ih =>
    obtain ⟨clock, hclock⟩ := elapse_eq ticks _
    rw [hclock]
    exact ih
  | raise t _ _ ih => exact ih

/-- On every run that starts without a reservation, the events before a conditional store that gets
past its checks tell what it does. If the last one is a load-reserved from its address, the store is
made, and on success zero is written. Otherwise one is written and no memory changes. In particular
it is not made if no load-reserved from its address came after some delivery of a trap, or after
some conditional store. -/
theorem storeConditional_of_log {rd base source : Nat} {past : List ReservationEvent}
    (hstart : h₀.reservation = none) (htrail : Trail table host h₀ steps h)
    (hx : h.executing? = some (inst, k)) (hname : inst.mnemonic = "sc.w")
    (hknown : (table.handler? inst.mnemonic).isSome) (hrd : inst.register 0 = .ok rd)
    (hbase : inst.register 1 = .ok base) (hsource : inst.register 2 = .ok source)
    (haligned : (k.regs.peek base).isAligned = true)
    (hpast : past = reservationLog table steps ++ h.deliveryEvents) :
    (past.getLast? = some (.loaded (k.regs.peek base)) → h.step table =
      match AddressSpace.writeNat (k.regs.peek base) 4 (k.regs.peek source).toNat k.memory with
      | .ok _ memory => .ok () { k with
          regs := ((k.regs.markRead base).markRead source).write rd 0
          memory, reservation := none, instret := k.instret + 1 }
      | .error e memory => ({ k with
          regs := (k.regs.markRead base).markRead source
          memory, reservation := none } : Hart).fail (some inst) (.memory e)) ∧
    (past.getLast? ≠ some (.loaded (k.regs.peek base)) →
      h.step table = .ok () (k.declined rd base source)) ∧
    (∀ older e newer, past = older ++ e :: newer → e.held = none →
      .loaded (k.regs.peek base) ∉ newer → h.step table = .ok () (k.declined rd base source)) := by
  obtain ⟨handler, hfind⟩ := Option.isSome_iff_exists.1 hknown
  have hhandler : handler = Exec.storeConditional := handler_eq_of_atomic hsets hbuild hfind
    (by simp [hname, Exec.atomicHandlers])
  have hstep := step_of_executing? hx hfind
  rw [hhandler, Exec.storeConditional_eq hrd hbase hsource haligned] at hstep
  have hheld : k.reservation = heldAfter past := by
    obtain ⟨memory, rfl⟩ := eq_of_executing? hx
    rw [hpast]
    exact held_started (htrail.reservation hsets hbuild hstart)
  have hlast : k.reservation = some (k.regs.peek base) ↔
      past.getLast? = some (.loaded (k.regs.peek base)) := by
    rw [hheld]
    exact ReservationEvent.heldAfter_eq_some
  have hdeclined : past.getLast? ≠ some (.loaded (k.regs.peek base)) →
      h.step table = .ok () (k.declined rd base source) := by
    intro hother
    rw [hstep, if_neg (mt hlast.1 hother)]
    rfl
  refine ⟨fun hloaded => ?_, hdeclined, ?_⟩
  · rw [hstep, if_pos (hlast.2 hloaded)]
    cases AddressSpace.writeNat (k.regs.peek base) 4 (k.regs.peek source).toNat k.memory <;> rfl
  · intro older e newer hsplit he hnew
    refine hdeclined fun hloaded => ?_
    -- the last event is `e` itself, which holds nothing, or one of the newer ones
    rw [hsplit, List.getLast?_append_cons, List.getLast?_cons] at hloaded
    cases hnewest : newer.getLast? with
    | none =>
      rw [hnewest] at hloaded
      cases hloaded
      cases he
    | some e' =>
      rw [hnewest] at hloaded
      cases hloaded
      exact hnew (List.mem_of_getLast? hnewest)

end Table
/-! ## A run with two conditional stores -/

/-- Code that takes a reservation on address 0 and then stores the stack pointer there twice, if it
is still held. -/
def contendingCode : AddressSpace :=
  ((AddressSpace.empty true 0x1000).insertSection (.zeroed ".data" 0 16 .data)).insertSection
    (.ofWords ".text" 0x1000 .code [0x100322AF, 0x182323AF, 0x1823242F])

/-- The hart after reset, at that code. -/
def contending : Hart :=
  (({ ofConfig {} with memory := contendingCode } : Hart).launch (some 0x1000)).2

/-- The hart before the first conditional store. -/
def atFirstStore : Hart := contending.stepped atomicTable

/-- The hart before the second one. -/
def atSecondStore : Hart := atFirstStore.stepped atomicTable

/-- The first conditional store, and the hart that executes it. -/
def firstStore : Instruction × Hart := atFirstStore.executing?.get (by decide +kernel)

/-- The second one, and the hart that executes it. -/
def secondStore : Instruction × Hart := atSecondStore.executing?.get (by decide +kernel)

theorem executing?_atFirstStore : atFirstStore.executing? = some (firstStore.1, firstStore.2) := by
  rw [firstStore, Prod.eta, Option.some_get]

theorem executing?_atSecondStore :
    atSecondStore.executing? = some (secondStore.1, secondStore.2) := by
  rw [secondStore, Prod.eta, Option.some_get]

/-- The first store is made. It gives the reservation up, so the second one is not. -/
theorem storeConditional_of_contending :
    reservationLog atomicTable [contending] = [.loaded 0] ∧
      (∃ memory, AddressSpace.writeNat 0 4 0x81010 firstStore.2.memory = .ok () memory ∧
        atFirstStore.step atomicTable = .ok () { firstStore.2 with
          regs := ((firstStore.2.regs.markRead 6).markRead 2).write 7 0
          memory, reservation := none, instret := 2 }) ∧
      reservationLog atomicTable [contending, atFirstStore] = [.loaded 0, .conditional 0] ∧
      atSecondStore.step atomicTable = .ok () (secondStore.2.declined 8 6 2) := by
  have hsets : ∀ s ∈ [InstructionSet.atomic], s ∈ InstructionSet.standard := by
    simp [InstructionSet.standard]
  have hreset : AtReset contending := atReset_launch ..
  have htrail : Trail atomicTable (fun _ => False) contending [contending] atFirstStore :=
    .step .start
  have htrail' : Trail atomicTable (fun _ => False) contending [contending, atFirstStore]
      atSecondStore := htrail.step
  obtain ⟨hlog, hlog', hquiet, hquiet'⟩ :
      reservationLog atomicTable [contending] = [.loaded 0] ∧
        reservationLog atomicTable [contending, atFirstStore] = [.loaded 0, .conditional 0] ∧
        atFirstStore.deliveryEvents = [] ∧ atSecondStore.deliveryEvents = [] := by
    decide +kernel
  obtain ⟨hname, hrd, hbase, hsource, haddr, hvalue, hcount⟩ :
      firstStore.1.mnemonic = "sc.w" ∧ firstStore.1.register 0 = .ok 7 ∧
        firstStore.1.register 1 = .ok 6 ∧ firstStore.1.register 2 = .ok 2 ∧
        firstStore.2.regs.peek 6 = 0 ∧ (firstStore.2.regs.peek 2).toNat = 0x81010 ∧
        firstStore.2.instret + 1 = 2 := by
    decide +kernel
  obtain ⟨hname', hrd', hbase', hsource', haddr'⟩ :
      secondStore.1.mnemonic = "sc.w" ∧ secondStore.1.register 0 = .ok 8 ∧
        secondStore.1.register 1 = .ok 6 ∧ secondStore.1.register 2 = .ok 2 ∧
        secondStore.2.regs.peek 6 = 0 := by
    decide +kernel
  have hknown : (atomicTable.handler? "sc.w").isSome = true := by decide +kernel
  have hsucceeds : (match AddressSpace.writeNat 0 4 0x81010 firstStore.2.memory with
      | .ok _ _ => true
      | .error _ _ => false) = true := by decide +kernel
  obtain ⟨hmade, -⟩ := storeConditional_of_log hsets build_atomic hreset.reservation htrail
    executing?_atFirstStore hname (hname ▸ hknown) hrd hbase hsource (haddr ▸ rfl) rfl
  obtain ⟨-, -, hdeclined⟩ := storeConditional_of_log hsets build_atomic hreset.reservation htrail'
    executing?_atSecondStore hname' (hname' ▸ hknown) hrd' hbase' hsource' (haddr' ▸ rfl) rfl
  rw [haddr, hvalue, hcount, hlog, hquiet] at hmade
  rw [hlog', hquiet'] at hdeclined
  refine ⟨hlog, ?_, hlog', hdeclined [.loaded 0] (.conditional 0) [] rfl rfl List.not_mem_nil⟩
  cases hwritten : AddressSpace.writeNat 0 4 0x81010 firstStore.2.memory with
  | ok a memory =>
    rw [hwritten] at hmade
    exact ⟨memory, rfl, hmade rfl⟩
  | error e memory =>
    rw [hwritten] at hsucceeds
    cases hsucceeds

end Hart
end Riscv32
