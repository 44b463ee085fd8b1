import Riscv32.Proofs.Hart.Control

/-!
# The timer and its interrupt

Three places speak of the timer: the timer itself, the two control registers that hold its
comparison, and the timer bit of `mip`. Writing either register arms the timer with both, so an
armed timer always agrees with them, and a poll that fires disarms it. Hence the timer fires at most
once for each write, and only past the value that the registers hold.

The timer bit is to tell whether a timer interrupt waits in the queue. A poll sets the one and
raises the other, and a delivery takes both back. A write that arms the timer withdraws the bit
alone: an interrupt that waits stays in the queue, and is delivered once interrupts are enabled. So
the bit is never set without an interrupt, but tells the truth in exactly those runs that never arm
the timer while one waits.

## Main definitions

* `Hart.arms table h` — the next step writes a half of the timer comparison.
* `Hart.timerPends h` — the timer bit is set.
* `Hart.timersWaiting h` — the count of timer interrupts in the queue.
* `Hart.Mirrored h` — the timer bit is set exactly if one waits, and at most one does.
* `Hart.RearmsEarly table h` — the next step arms the timer while one waits.

## Main statements

* `Hart.timer_tied`, the timer, its registers, and how often it fires.
* `Hart.mirrored_iff_never_early`, the runs in which the bit mirrors the queue.
-/
namespace Riscv32.Hart

variable {table : DispatchTable} {sets : List InstructionSet} {host : Trap → Prop}
  {h h₀ b : Hart} {steps : List Hart} {t : Trap}

/-- The next step writes a half of the timer comparison. -/
def arms (table : DispatchTable) (h : Hart) : Bool :=
  (h.written? table).any fun addr => decide (addr ∈ Csr.timerPair)

/-- The timer bit of `mip` is set. -/
def timerPends (h : Hart) : Prop := h.csrs.raw Csr.mip &&& Csr.timerPending ≠ 0

instance (h : Hart) : Decidable h.timerPends := inferInstanceAs (Decidable (_ ≠ _))

/-- The count of timer interrupts in the queue. -/
def timersWaiting (h : Hart) : Nat :=
  h.traps.toList.countP fun e => decide (e.trap = .machineTimerInterrupt)

theorem arms_iff : h.arms table = true ↔
    ∃ addr ∈ Csr.timerPair, h.written? table = some addr := by
  rw [arms, Option.any_eq_true]
  constructor
  · rintro ⟨addr, hw, haddr⟩
    exact ⟨addr, of_decide_eq_true haddr, hw⟩
  · rintro ⟨addr, haddr, hw⟩
    exact ⟨addr, hw, decide_eq_true haddr⟩

/-- Setting the timer bit sets it, and withdrawing it clears it. -/
theorem and_timerPending (w : Word) :
    (w ||| Csr.timerPending) &&& Csr.timerPending ≠ 0 ∧
      (w &&& ~~~Csr.timerPending) &&& Csr.timerPending = 0 := by
  constructor
  · intro hzero
    have hbit := congrArg (fun v : Word => v.getLsbD 7) hzero
    simp only [BitVec.getLsbD_and, BitVec.getLsbD_or] at hbit
    have hset : Csr.timerPending.getLsbD 7 = true := by decide
    rw [hset, Bool.or_true] at hbit
    cases hbit
  · rw [BitVec.and_assoc]
    exact BitVec.and_zero

/-! ## The boundary -/

/-- A poll that fires finds the timer armed and the clock past its comparison. -/
theorem of_polled?_isSome (hpolled : h.polled?.isSome = true) :
    h.timer.armed = true ∧ h.timer.compare < h.clock.now := by
  rw [polled?] at hpolled
  split at hpolled
  · cases hpolled
  split at hpolled
  case isTrue hfires =>
    rw [Timer.fires, Bool.and_eq_true] at hfires
    exact ⟨hfires.1, of_decide_eq_true hfires.2⟩
  case isFalse => cases hpolled

/-- The boundary disarms the timer if it fires, and leaves it alone otherwise. -/
theorem timer_started (h : Hart) : h.started.timer =
    if h.polled?.isSome then { h.timer with armed := false } else h.timer := by
  have hdelivered : ∀ k : Hart, k.deliverTrap.2.timer = k.timer := by
    intro k
    rcases deliverTrap_eq k with hd | ⟨e, traps, hd⟩
    · rw [hd]
    · rw [hd]
      rfl
  rw [started_eq, polled?]
  by_cases hdone : (h.halted || h.spent.isSome || !h.privileged) = true
  · rw [if_pos hdone, if_pos hdone]
    rfl
  · rw [if_neg hdone, if_neg hdone, hdelivered, timer_pollTimer, Timer.poll]
    split <;> rfl

/-- The boundary writes no control register but those that a trap does. -/
theorem slot_started (h : Hart) {addr : Word} (haddr : addr ∉ trapRegisters) :
    h.started.csrs.slot addr = h.csrs.slot addr := by
  have hpoll : h.pollTimer.csrs.slot addr = h.csrs.slot addr := by
    have hmip : Csr.mip ≠ addr := by
      rintro rfl
      exact haddr (by decide)
    rw [pollTimer]
    split
    · exact Csr.Store.slot_setRaw_of_ne hmip _
    · rfl
  rw [started_eq]
  split
  · rfl
  · rcases deliverTrap_eq h.pollTimer with hd | ⟨e, traps, hd⟩
    · rw [hd]
      exact hpoll
    · rw [hd]
      exact (slot_csrsInTrap { h.pollTimer with traps } e.trap haddr).trans hpoll

theorem timerCompare_started (h : Hart) :
    h.started.csrs.timerCompare = h.csrs.timerCompare := by
  have hlow : h.started.csrs.raw Csr.mtimecmp = h.csrs.raw Csr.mtimecmp :=
    congrArg Csr.Slot.raw (slot_started h (by decide))
  have hhigh : h.started.csrs.raw Csr.mtimecmph = h.csrs.raw Csr.mtimecmph :=
    congrArg Csr.Slot.raw (slot_started h (by decide))
  rw [Csr.Store.timerCompare, Csr.Store.timerCompare, hlow, hhigh]

theorem virtual_started (hs : h.csrs.Virtual) : h.started.csrs.Virtual := by
  rw [started]
  split
  · exact hs
  · exact virtual_atBoundary hs

/-! ## Instructions -/

/-- On a privileged hart an instruction fails with an exception, and never with an interrupt. -/
theorem isInterrupt_of_exception? (hsets : ∀ s ∈ sets, s ∈ InstructionSet.standard)
    (hbuild : DispatchTable.build sets = .ok table) (hp : b.privileged = true)
    (ht : b.exception? table = some t) : t.isInterrupt = false := by
  unfold exception? at ht
  split at ht
  case h_1 e _ _ =>
    cases ht
    have hfails : Exec.Powers.none.Fails (.memory e) := Exec.fails_memory e
    exact hfails.synchronous 0 e.trap rfl
  case h_2 inst memory _ =>
    split at ht
    case h_1 => cases ht
    case h_2 handler hfind =>
      split at ht
      case h_1 => cases ht
      case h_2 e k he =>
        have hacts := DispatchTable.acts_of_handler? hsets hbuild hfind inst
        exact (hacts.failsWithin (b.executing memory) e k hp he).synchronous _ _ ht

section Table

variable (hsets : ∀ s ∈ sets, s ∈ InstructionSet.standard)
  (hbuild : DispatchTable.build sets = .ok table)

include hsets hbuild

/-- What a step raises after its boundary is an exception. -/
theorem isInterrupt_of_mem_raises (hp : h.privileged = true) {e : TrapEvent}
    (he : e ∈ h.fetching?.elim [] (instructionRaises table)) : e.trap.isInterrupt = false := by
  obtain ⟨b, t, hb, ht, rfl⟩ := exception?_of_mem_raises hsets hbuild he
  exact isInterrupt_of_exception? hsets hbuild ((frame_of_fetching? hb).1.trans hp) ht

/-- Nothing in a step raises a timer interrupt but its poll. -/
theorem polled?_of_mem_raises (hp : h.privileged = true) {e : TrapEvent} (he : e ∈ h.raises table)
    (htimer : e.trap = .machineTimerInterrupt) : h.polled? = some e := by
  rcases List.mem_append.1 he with hpolled | hfailed
  · exact Option.mem_toList.1 hpolled
  · have hexception := isInterrupt_of_mem_raises hsets hbuild hp hfailed
    rw [htimer] at hexception
    cases hexception

/-- After the boundary of a step no timer interrupt enters or leaves the queue. -/
theorem timersWaiting_stepped (hp : h.privileged = true) :
    (h.stepped table).timersWaiting = h.started.timersWaiting := by
  by_cases hgo : (h.halted || h.spent.isSome) = true
  · rw [stepped_of_done hgo, started, if_pos hgo]
  · have hnone : (h.fetching?.elim [] (instructionRaises table)).countP
        (fun e => decide (e.trap = .machineTimerInterrupt)) = 0 := by
      rw [List.countP_eq_zero]
      intro e he htimer
      have hexception := isInterrupt_of_mem_raises hsets hbuild hp he
      rw [of_decide_eq_true htimer] at hexception
      cases hexception
    rw [timersWaiting, toList_stepped (fun s hs => .inl (hsets s hs)) hbuild hgo hp,
      List.countP_append, hnone, started, if_neg hgo]
    rfl

/-! ## The registers of the timer -/

/-- What a step does to the timer after its boundary. -/
theorem timer_stepped (hs : h.csrs.Virtual) :
    (h.arms table = true → (h.stepped table).timer = ⟨(h.stepped table).csrs.timerCompare, true⟩ ∧
      ¬ (h.stepped table).timerPends) ∧
    (h.arms table = false → (h.stepped table).timer = h.started.timer ∧
      (h.stepped table).csrs.timerCompare = h.started.csrs.timerCompare ∧
      (h.written? table ≠ some Csr.mip →
        ((h.stepped table).timerPends ↔ h.started.timerPends))) := by
  obtain ⟨harms, hother⟩ := timer_instructed hsets hbuild (virtual_started hs)
  obtain ⟨pc, instructionPc, memory, cycle, instret, halted, exitCode, waiting, traps, hstepped⟩ :=
    stepped_frame table h
  rw [hstepped]
  constructor
  · intro hwrites
    obtain ⟨htimer, hmip⟩ := harms (arms_iff.1 hwrites)
    refine ⟨htimer, fun hpends => hpends ?_⟩
    change (h.instructed table).csrs.raw Csr.mip &&& Csr.timerPending = 0
    rw [hmip]
    exact (and_timerPending _).2
  · intro hwrites
    have hnot : ∀ addr ∈ Csr.timerPair, h.written? table ≠ some addr := by
      intro addr haddr hw
      rw [arms_iff.2 ⟨addr, haddr, hw⟩] at hwrites
      cases hwrites
    obtain ⟨htimer, hcompare, hmip⟩ := hother hnot
    refine ⟨htimer, hcompare, fun hw => ?_⟩
    change (h.instructed table).csrs.raw Csr.mip &&& Csr.timerPending ≠ 0 ↔
      h.started.csrs.raw Csr.mip &&& Csr.timerPending ≠ 0
    rw [hmip hw]

/-- What holds of the timer on every run: it agrees with its registers while it is armed, and it has
fired no more often than it was armed, the arming that is still open apart. -/
structure Tied (table : DispatchTable) (steps : List Hart) (h : Hart) : Prop where
  privileged : h.privileged = true
  kinds : h.csrs.Virtual
  compare : h.timer.armed = true → h.timer.compare = h.csrs.timerCompare
  fires : steps.countP (·.polled?.isSome) + h.timer.armed.toNat ≤ steps.countP (arms table)

theorem Tied.stepped (hh : Tied table steps h) : Tied table (steps ++ [h]) (h.stepped table) := by
  have hprivileged := (stepwise_privileged_of_standard hsets hbuild).stepped h
  have hkinds := (stepwise_keepsKinds hsets hbuild).stepped h hh.kinds
  obtain ⟨harms, hother⟩ := timer_stepped hsets hbuild hh.kinds
  have htimer := timer_started h
  have hcount : ∀ p : Hart → Bool, (steps ++ [h]).countP p = steps.countP p + (p h).toNat := by
    intro p
    rw [List.countP_append, List.countP_singleton]
    cases p h <;> rfl
  have hfires := hh.fires
  -- the boundary gives up the arming that it fires for
  have hboundary : (h.polled?.isSome).toNat + h.started.timer.armed.toNat
      ≤ h.timer.armed.toNat := by
    rw [htimer]
    cases hpolled : h.polled?.isSome with
    | true =>
      rw [if_pos rfl, (of_polled?_isSome hpolled).1]
      exact Nat.le_refl _
    | false =>
      rw [if_neg (by decide)]
      simp
  refine ⟨hprivileged.trans hh.privileged, hkinds, ?_, ?_⟩
  · intro harmed
    cases hwrites : h.arms table with
    | true => rw [(harms hwrites).1]
    | false =>
      obtain ⟨hsame, hcompare, -⟩ := hother hwrites
      rw [hsame, htimer] at harmed ⊢
      rw [hcompare, timerCompare_started]
      split at harmed
      case isTrue => cases harmed
      case isFalse hpolled =>
        rw [if_neg hpolled]
        exact hh.compare harmed
  · rw [hcount, hcount]
    cases hwrites : h.arms table with
    | true =>
      have hone := Bool.toNat_le (h.stepped table).timer.armed
      simp only [Bool.toNat_true]
      omega
    | false =>
      rw [(hother hwrites).1]
      simp only [Bool.toNat_false]
      omega

theorem Trail.tied (hp : h₀.privileged = true) (hreset : AtReset h₀)
    (htrail : Trail table host h₀ steps h) : Tied table steps h := by
  induction htrail with
  | start =>
    refine ⟨hp, hreset.kinds, fun harmed => ?_, ?_⟩
    · rw [hreset.timer] at harmed
      cases harmed
    · rw [hreset.timer, List.countP_nil, List.countP_nil]
      exact Nat.le_refl _
  | step _ ih => exact ih.stepped hsets hbuild
  | elapse ticks _ ih =>
    obtain ⟨clock, hclock⟩ := elapse_eq ticks _
    rw [hclock]
    exact ⟨ih.privileged, ih.kinds, ih.compare, ih.fires⟩
  | raise t _ _ ih => exact ⟨ih.privileged, ih.kinds, ih.compare, ih.fires⟩

/-- On every run of a privileged hart from reset: while the timer is armed, its comparison is the
number that its two control registers hold. A timer interrupt that a step raises is that of its poll
and is raised with the clock past that number. The steps whose poll raises one are no more than
those that write one of the registers, and until the first of these no poll raises any. -/
theorem timer_tied (hp : h₀.privileged = true) (hreset : AtReset h₀)
    (htrail : Trail table host h₀ steps h) :
    (h.timer.armed = true → h.timer.compare = h.csrs.timerCompare) ∧
      (∀ e ∈ h.raises table, e.trap = .machineTimerInterrupt →
        h.polled? = some e ∧ h.csrs.timerCompare < h.clock.now) ∧
      steps.countP (·.polled?.isSome) ≤ steps.countP (arms table) ∧
      ((∀ k ∈ steps, k.arms table = false) → h.polled? = none) := by
  obtain ⟨hprivileged, -, hcompare, hfires⟩ := htrail.tied hsets hbuild hp hreset
  refine ⟨hcompare, fun e he htimer => ?_, Nat.le_of_add_right_le hfires, fun hnone => ?_⟩
  · have hpolled := polled?_of_mem_raises hsets hbuild hprivileged he htimer
    obtain ⟨harmed, hpast⟩ := of_polled?_isSome (Option.isSome_iff_exists.2 ⟨e, hpolled⟩)
    rw [hcompare harmed] at hpast
    exact ⟨hpolled, hpast⟩
  · have hzero : steps.countP (arms table) = 0 := by
      rw [List.countP_eq_zero]
      intro k hk
      rw [hnone k hk]
      exact Bool.false_ne_true
    rw [hzero] at hfires
    by_contra hsome
    have harmed := (of_polled?_isSome (Option.isSome_iff_ne_none.2 hsome)).1
    rw [harmed, Bool.toNat_true] at hfires
    omega

end Table

/-! ## A run in which the timer fires once -/

/-- The hart after reset, at code that writes both halves of the comparison. -/
def launched : Hart :=
  (({ ofConfig privilegedConfig with memory := timedCall } : Hart).launch none).2

/-- The steps of that code up to its environment call. -/
def timedSteps : List Hart :=
  [launched, launched.stepped systemTable, (launched.stepped systemTable).stepped systemTable]

theorem trail_beforeCall : Trail systemTable host launched timedSteps beforeCall :=
  .step (.step (.step .start))

/-- That hart once the clock is past the comparison. -/
def pastCompare : Hart := beforeCall.elapse 6

/-- The timer is armed for tick 5 and fires at the first boundary past it. By the end of that step
it is armed for the third time. -/
theorem timer_tied_of_timedCall :
    launched.polled? = none ∧
      beforeCall.timer.armed = true ∧ beforeCall.timer.compare = beforeCall.csrs.timerCompare ∧
      beforeCall.csrs.timerCompare = 5 ∧
      .machine .machineTimerInterrupt ∈ pastCompare.raises systemTable ∧
      pastCompare.csrs.timerCompare < pastCompare.clock.now ∧
      (timedSteps ++ [pastCompare]).countP (·.polled?.isSome) = 1 ∧
      (timedSteps ++ [pastCompare]).countP (arms systemTable) = 3 ∧
      (timedSteps ++ [pastCompare]).countP (·.polled?.isSome)
        ≤ (timedSteps ++ [pastCompare]).countP (arms systemTable) := by
  have hreset : AtReset launched := atReset_launch ..
  have hstart : Trail systemTable (fun _ => False) launched [] launched := .start
  have hbefore : Trail systemTable (fun _ => False) launched timedSteps beforeCall :=
    trail_beforeCall
  have hpast : Trail systemTable (fun _ => False) launched timedSteps pastCompare :=
    .elapse 6 hbefore
  have harmed : beforeCall.timer.armed = true := by decide +kernel
  have hraises : .machine .machineTimerInterrupt ∈ pastCompare.raises systemTable := by
    decide +kernel
  obtain ⟨-, -, -, hfirst⟩ := timer_tied systemSets_standard build_systemSets rfl hreset hstart
  obtain ⟨hcompare, -⟩ := timer_tied systemSets_standard build_systemSets rfl hreset hbefore
  obtain ⟨-, hraised, -⟩ := timer_tied systemSets_standard build_systemSets rfl hreset hpast
  obtain ⟨-, -, hcount, -⟩ := timer_tied systemSets_standard build_systemSets rfl hreset hpast.step
  exact ⟨hfirst (List.forall_mem_nil _), harmed, hcompare harmed, by decide +kernel, hraises,
    (hraised _ hraises rfl).2, by decide +kernel, by decide +kernel, hcount⟩

/-! ## The timer bit and the queue -/

/-- The timer bit is set exactly if a timer interrupt waits, and at most one does. -/
structure Mirrored (h : Hart) : Prop where
  pends_iff : h.timerPends ↔ 0 < h.timersWaiting
  atMostOne : h.timersWaiting ≤ 1

/-- The next step arms the timer while a timer interrupt waits. -/
def RearmsEarly (table : DispatchTable) (h : Hart) : Prop :=
  h.arms table = true ∧ 0 < h.started.timersWaiting

instance (table : DispatchTable) (h : Hart) : Decidable (h.RearmsEarly table) :=
  inferInstanceAs (Decidable (_ ∧ _))

/-- A poll sets the timer bit and queues an interrupt, or does neither. -/
theorem pending_pollTimer (hgo : ¬ (h.halted || h.spent.isSome || !h.privileged) = true) :
    (h.pollTimer.timerPends ↔ h.timerPends ∨ h.polled?.isSome = true) ∧
      h.pollTimer.timersWaiting = h.timersWaiting + h.polled?.isSome.toNat := by
  rw [polled?, if_neg hgo, pollTimer]
  split
  case isTrue =>
    constructor
    · change (h.csrs.setRaw Csr.mip _).raw Csr.mip &&& Csr.timerPending ≠ 0 ↔ _
      rw [Csr.Store.raw_setRaw, if_pos rfl]
      exact iff_of_true (and_timerPending _).1 (.inr rfl)
    · change (h.traps.push _).toList.countP _ = _
      rw [TrapQueue.toList_push, List.countP_append]
      rfl
  case isFalse => simp

/-- The delivery of a timer interrupt takes it out of the queue and withdraws the timer bit. Any
other delivery leaves both alone. -/
theorem pending_deliverTrap (h : Hart) :
    (h.deliverTrap.2.timersWaiting + 1 = h.timersWaiting ∧ ¬ h.deliverTrap.2.timerPends) ∨
      (h.deliverTrap.2.timersWaiting = h.timersWaiting ∧
        (h.deliverTrap.2.timerPends ↔ h.timerPends)) := by
  unfold deliverTrap
  split
  case h_1 => exact .inr ⟨rfl, Iff.rfl⟩
  case h_2 e traps hpop =>
    obtain ⟨-, older, newer, hbefore, hafter, -⟩ := TrapQueue.toList_of_pop? hpop
    have hmip := mip_csrsInTrap { h with traps } e.trap
    have hpends : (({ h with traps } : Hart).enterTrap e).timerPends ↔
        (({ h with traps } : Hart).csrsInTrap e.trap).raw Csr.mip &&& Csr.timerPending ≠ 0 :=
      Iff.rfl
    have hwaiting : (({ h with traps } : Hart).enterTrap e).timersWaiting =
        traps.toList.countP fun e => decide (e.trap = .machineTimerInterrupt) := rfl
    rw [hpends, hwaiting, hmip, timersWaiting, hbefore, hafter, List.countP_append,
      List.countP_append, List.countP_cons]
    by_cases htimer : e.trap = .machineTimerInterrupt
    · rw [if_pos htimer, decide_eq_true htimer]
      exact .inl ⟨by rw [if_pos rfl, Nat.add_assoc], not_not_intro (and_timerPending _).2⟩
    · rw [if_neg htimer, decide_eq_false htimer]
      exact .inr ⟨rfl, Iff.rfl⟩

/-- What a boundary does to the queue and the timer bit. -/
theorem pending_started (h : Hart) :
    (h.started.timersWaiting + 1 = h.timersWaiting + h.polled?.isSome.toNat ∧
      ¬ h.started.timerPends) ∨
      (h.started.timersWaiting = h.timersWaiting + h.polled?.isSome.toNat ∧
        (h.started.timerPends ↔ h.timerPends ∨ h.polled?.isSome = true)) := by
  by_cases hdone : (h.halted || h.spent.isSome || !h.privileged) = true
  · rw [started_eq, polled?, if_pos hdone, if_pos hdone]
    exact .inr ⟨rfl, by simp⟩
  · obtain ⟨hpends, hwaiting⟩ := pending_pollTimer hdone
    rw [started_eq, if_neg hdone, ← hpends, ← hwaiting]
    exact pending_deliverTrap h.pollTimer

/-- The timer bit is set only while an interrupt waits for it and the timer is not armed again. -/
structure Backed (h : Hart) : Prop where
  privileged : h.privileged = true
  kinds : h.csrs.Virtual
  waits : h.timerPends → 0 < h.timersWaiting
  disarmed : h.timerPends → h.timer.armed = false

/-- The bit mirrors the queue, and the timer is not armed while an interrupt waits. -/
structure InStep (h : Hart) : Prop extends Mirrored h where
  disarmed : 0 < h.timersWaiting → h.timer.armed = false

/-- A boundary keeps the bit and the queue in step. -/
theorem InStep.started (hh : h.InStep) : h.started.InStep := by
  have htimer := timer_started h
  have hatMost := hh.atMostOne
  cases hpolled : h.polled?.isSome with
  | true =>
    -- the timer was armed, so no interrupt waited
    have hnone : h.timersWaiting = 0 := by
      by_contra hwaits
      have hdisarmed := hh.disarmed (Nat.pos_of_ne_zero hwaits)
      rw [(of_polled?_isSome hpolled).1] at hdisarmed
      cases hdisarmed
    have hdisarmed : h.started.timer.armed = false := by rw [htimer, hpolled, if_pos rfl]
    have hstarted := pending_started h
    rw [hpolled, hnone, Bool.toNat_true] at hstarted
    rcases hstarted with ⟨hwaiting, hpends⟩ | ⟨hwaiting, hpends⟩
    · exact ⟨⟨iff_of_false hpends (by omega), by omega⟩, fun _ => hdisarmed⟩
    · exact ⟨⟨iff_of_true (hpends.2 (.inr rfl)) (by omega), by omega⟩, fun _ => hdisarmed⟩
  | false =>
    have hsame : h.started.timer = h.timer := by rw [htimer, hpolled, if_neg Bool.false_ne_true]
    have hstarted := pending_started h
    rw [hpolled, Bool.toNat_false] at hstarted
    rcases hstarted with ⟨hwaiting, hpends⟩ | ⟨hwaiting, hpends⟩
    · exact ⟨⟨iff_of_false hpends (by omega), by omega⟩, fun hwaits => by omega⟩
    · have hpends' : h.started.timerPends ↔ h.timerPends := by simpa using hpends
      rw [Nat.add_zero] at hwaiting
      refine ⟨⟨?_, ?_⟩, ?_⟩
      · rw [hpends', hwaiting]
        exact hh.pends_iff
      · rw [hwaiting]
        exact hatMost
      · rw [hwaiting, hsame]
        exact hh.disarmed

section Table

variable (hsets : ∀ s ∈ sets, s ∈ InstructionSet.standard)
  (hbuild : DispatchTable.build sets = .ok table)

include hsets hbuild

/-- A write that arms the timer withdraws the timer bit, and leaves in the queue what waits. -/
theorem pending_of_arms (hh : h.Backed) (harms : h.arms table = true) :
    ¬ (h.stepped table).timerPends ∧
      (h.stepped table).timersWaiting = h.started.timersWaiting :=
  ⟨((timer_stepped hsets hbuild hh.kinds).1 harms).2,
    timersWaiting_stepped hsets hbuild hh.privileged⟩

theorem Backed.stepped (hh : h.Backed) (hmip : h.written? table ≠ some Csr.mip) :
    (h.stepped table).Backed := by
  have hprivileged := (stepwise_privileged_of_standard hsets hbuild).stepped h
  have hkinds := (stepwise_keepsKinds hsets hbuild).stepped h hh.kinds
  cases harms : h.arms table with
  | true =>
    have hcleared := (pending_of_arms hsets hbuild hh harms).1
    exact ⟨hprivileged.trans hh.privileged, hkinds, fun hpends => absurd hpends hcleared,
      fun hpends => absurd hpends hcleared⟩
  | false =>
    obtain ⟨hsame, -, hpends⟩ := (timer_stepped hsets hbuild hh.kinds).2 harms
    have hstarted : h.started.timerPends →
        0 < h.started.timersWaiting ∧ h.started.timer.armed = false := by
      intro hpends
      rcases pending_started h with ⟨-, hnot⟩ | ⟨hwaiting, hiff⟩
      · exact absurd hpends hnot
      · rw [hwaiting, timer_started]
        rcases hiff.1 hpends with hbefore | hpolled
        · refine ⟨Nat.lt_of_lt_of_le (hh.waits hbefore) (Nat.le_add_right _ _), ?_⟩
          split
          · rfl
          · exact hh.disarmed hbefore
        · rw [hpolled]
          exact ⟨Nat.succ_pos _, rfl⟩
    rw [← hpends hmip, ← timersWaiting_stepped hsets hbuild hh.privileged, ← hsame] at hstarted
    exact ⟨hprivileged.trans hh.privileged, hkinds, fun hp => (hstarted hp).1,
      fun hp => (hstarted hp).2⟩

/-- A step keeps the bit and the queue in step, unless it arms the timer early. -/
theorem InStep.stepped (hh : h.InStep) (hbacked : h.Backed)
    (hmip : h.written? table ≠ some Csr.mip) (hearly : ¬ h.RearmsEarly table) :
    (h.stepped table).InStep := by
  have hstarted := hh.started
  have hwaiting := timersWaiting_stepped hsets hbuild hbacked.privileged
  cases harms : h.arms table with
  | true =>
    have hnone : h.started.timersWaiting = 0 :=
      Nat.eq_zero_of_not_pos fun hwaits => hearly ⟨harms, hwaits⟩
    have hcleared := (pending_of_arms hsets hbuild hbacked harms).1
    rw [hnone] at hwaiting
    exact ⟨⟨iff_of_false hcleared (by omega), by omega⟩, fun hwaits => by omega⟩
  | false =>
    obtain ⟨hsame, -, hpends⟩ := (timer_stepped hsets hbuild hbacked.kinds).2 harms
    refine ⟨⟨?_, ?_⟩, ?_⟩
    · rw [hpends hmip, hwaiting]
      exact hstarted.pends_iff
    · rw [hwaiting]
      exact hstarted.atMostOne
    · rw [hwaiting, hsame]
      exact hstarted.disarmed

/-- After the timer was armed early an interrupt waits without its bit. -/
theorem not_mirrored_of_rearmsEarly (hbacked : h.Backed) (hearly : h.RearmsEarly table) :
    ¬ (h.stepped table).Mirrored := by
  intro hmirrored
  obtain ⟨hcleared, hwaiting⟩ := pending_of_arms hsets hbuild hbacked hearly.1
  exact hcleared (hmirrored.pends_iff.2 (hwaiting ▸ hearly.2))

end Table

/-! ## Runs -/

theorem AtReset.not_timerPends (hreset : AtReset h) : ¬ h.timerPends := by
  rw [timerPends, hreset.pending]
  decide

/-- The harts do not differ in anything that concerns the timer. -/
structure SameTimer (h h' : Hart) : Prop where
  privileged : h'.privileged = h.privileged
  csrs : h'.csrs = h.csrs
  timer : h'.timer = h.timer
  waiting : h'.timersWaiting = h.timersWaiting

theorem sameTimer_elapse (h : Hart) (ticks : Counter) : SameTimer h (h.elapse ticks) := by
  obtain ⟨clock, hclock⟩ := elapse_eq ticks h
  rw [hclock]
  exact ⟨rfl, rfl, rfl, rfl⟩

theorem sameTimer_raise (h : Hart) (ht : t ≠ .machineTimerInterrupt) : SameTimer h (h.raise t) := by
  refine ⟨rfl, rfl, rfl, ?_⟩
  have hnone : decide ((TrapEvent.machine t).trap = .machineTimerInterrupt) = false :=
    decide_eq_false ht
  rw [timersWaiting, raise, TrapQueue.toList_push, List.countP_append, List.countP_singleton, hnone]
  rfl

theorem SameTimer.timerPends_iff {h' : Hart} (hsame : SameTimer h h') :
    h'.timerPends ↔ h.timerPends := by
  rw [timerPends, timerPends, hsame.csrs]

theorem SameTimer.backed {h' : Hart} (hsame : SameTimer h h') (hh : h.Backed) : h'.Backed := by
  refine ⟨hsame.privileged.trans hh.privileged, hsame.csrs ▸ hh.kinds, ?_, ?_⟩
  · rw [hsame.timerPends_iff, hsame.waiting]
    exact hh.waits
  · rw [hsame.timerPends_iff, hsame.timer]
    exact hh.disarmed

theorem SameTimer.mirrored_iff {h' : Hart} (hsame : SameTimer h h') :
    h'.Mirrored ↔ h.Mirrored := by
  constructor
  · rintro ⟨hpends, hatMost⟩
    rw [hsame.timerPends_iff, hsame.waiting] at hpends
    exact ⟨hpends, hsame.waiting ▸ hatMost⟩
  · rintro ⟨hpends, hatMost⟩
    rw [← hsame.timerPends_iff, ← hsame.waiting] at hpends
    exact ⟨hpends, hsame.waiting ▸ hatMost⟩

theorem SameTimer.inStep {h' : Hart} (hsame : SameTimer h h') (hh : h.InStep) : h'.InStep := by
  refine ⟨hsame.mirrored_iff.2 hh.toMirrored, ?_⟩
  rw [hsame.waiting, hsame.timer]
  exact hh.disarmed

section Table

variable (hsets : ∀ s ∈ sets, s ∈ InstructionSet.standard)
  (hbuild : DispatchTable.build sets = .ok table)
  (hhost : ∀ t, host t → t ≠ .machineTimerInterrupt)

include hsets hbuild hhost

theorem Trail.backed (hp : h₀.privileged = true) (hreset : AtReset h₀)
    (htrail : Trail table host h₀ steps h) (hmip : ∀ k ∈ steps, k.written? table ≠ some Csr.mip) :
    h.Backed := by
  induction htrail with
  | start =>
    have hcleared := hreset.not_timerPends
    exact ⟨hp, hreset.kinds, fun hpends => absurd hpends hcleared, fun _ => hreset.timer⟩
  | step _ ih =>
    rw [List.forall_mem_append, List.forall_mem_singleton] at hmip
    exact (ih hmip.1).stepped hsets hbuild hmip.2
  | elapse ticks _ ih => exact (sameTimer_elapse _ ticks).backed (ih hmip)
  | raise t ht _ ih => exact (sameTimer_raise _ (hhost t ht)).backed (ih hmip)

theorem Trail.inStep (hp : h₀.privileged = true) (hreset : AtReset h₀)
    (htrail : Trail table host h₀ steps h) (hmip : ∀ k ∈ steps, k.written? table ≠ some Csr.mip)
    (hearly : ∀ k ∈ steps, ¬ k.RearmsEarly table) : h.InStep := by
  induction htrail with
  | start =>
    have hcleared := hreset.not_timerPends
    have hnone : h₀.timersWaiting = 0 := by
      rw [timersWaiting, hreset.traps]
      rfl
    exact ⟨⟨iff_of_false hcleared (by omega), by omega⟩, fun _ => hreset.timer⟩
  | step hrun ih =>
    rw [List.forall_mem_append, List.forall_mem_singleton] at hmip hearly
    exact (ih hmip.1 hearly.1).stepped hsets hbuild
      (hrun.backed hsets hbuild hhost hp hreset hmip.1) hmip.2 hearly.2
  | elapse ticks _ ih => exact (sameTimer_elapse _ ticks).inStep (ih hmip hearly)
  | raise t ht _ ih => exact (sameTimer_raise _ (hhost t ht)).inStep (ih hmip hearly)

/-- On every run of a privileged hart from reset that never writes `mip` and to which the host adds
no timer interrupt: the timer bit is set only while a timer interrupt waits. It mirrors the queue at
the start of all steps and at the end precisely if no step arms the timer while a timer interrupt
waits. For a step that arms the timer withdraws the bit, and leaves the interrupts that wait in the
queue. -/
theorem mirrored_iff_never_early (hp : h₀.privileged = true) (hreset : AtReset h₀)
    (htrail : Trail table host h₀ steps h) (hmip : ∀ k ∈ steps, k.written? table ≠ some Csr.mip) :
    (h.timerPends → 0 < h.timersWaiting) ∧
      ((∀ k ∈ steps ++ [h], k.Mirrored) ↔ ∀ k ∈ steps, ¬ k.RearmsEarly table) ∧
      (h.arms table = true → ¬ (h.stepped table).timerPends ∧
        (h.stepped table).timersWaiting = h.started.timersWaiting) := by
  have hbacked := htrail.backed hsets hbuild hhost hp hreset hmip
  refine ⟨hbacked.waits, ?_, pending_of_arms hsets hbuild hbacked⟩
  clear hbacked
  induction htrail with
  | start =>
    have hstart : h₀.Mirrored :=
      (Trail.start.inStep hsets hbuild hhost hp hreset hmip (List.forall_mem_nil _)).toMirrored
    simp only [List.nil_append, List.forall_mem_singleton, hstart, List.not_mem_nil, false_implies,
      implies_true]
  | @step steps k hrun ih =>
    rw [List.forall_mem_append, List.forall_mem_singleton] at hmip
    have hsplit : (∀ k' ∈ (steps ++ [k]) ++ [k.stepped table], k'.Mirrored) ↔
        (∀ k' ∈ steps ++ [k], k'.Mirrored) ∧ (k.stepped table).Mirrored := by
      rw [List.forall_mem_append, List.forall_mem_singleton]
    rw [hsplit, ih hmip.1, List.forall_mem_append, List.forall_mem_singleton]
    refine and_congr_right fun hnone => ?_
    have hbacked := hrun.backed hsets hbuild hhost hp hreset hmip.1
    constructor
    · intro hmirrored hearly
      exact not_mirrored_of_rearmsEarly hsets hbuild hbacked hearly hmirrored
    · intro hearly
      exact ((hrun.inStep hsets hbuild hhost hp hreset hmip.1 hnone).stepped hsets hbuild hbacked
        hmip.2 hearly).toMirrored
  | elapse ticks _ ih =>
    rw [← ih hmip, List.forall_mem_append, List.forall_mem_append, List.forall_mem_singleton,
      List.forall_mem_singleton, (sameTimer_elapse _ ticks).mirrored_iff]
  | raise t ht _ ih =>
    rw [← ih hmip, List.forall_mem_append, List.forall_mem_append, List.forall_mem_singleton,
      List.forall_mem_singleton, (sameTimer_raise _ (hhost t ht)).mirrored_iff]

end Table

/-! ## A run that arms the timer early -/

/-- Code that arms the timer for tick 5, and at its third instruction for tick 31. -/
def rearmingCode : AddressSpace :=
  (AddressSpace.empty true 0x1000).insertSection
    (.ofWords ".text" 0 .code [0x32205073, 0x3212D073, 0x321FD073])

/-- The hart after reset, at that code. -/
def rearming : Hart :=
  (({ ofConfig privilegedConfig with memory := rearmingCode } : Hart).launch none).2

/-- The hart at the third instruction, with the clock past tick 5. -/
def timerOverdue : Hart := ((rearming.stepped systemTable).stepped systemTable).elapse 6

/-- The harts before the steps that arm the timer for tick 5. -/
def rearmingSteps : List Hart := [rearming, rearming.stepped systemTable]

theorem trail_timerOverdue : Trail systemTable host rearming rearmingSteps timerOverdue :=
  .elapse 6 (.step (.step .start))

/-- Up to the third instruction the bit mirrors the queue. That instruction arms the timer while the
interrupt for tick 5 waits, and leaves it in the queue without the bit. -/
theorem mirrored_iff_of_rearming :
    (∀ k ∈ rearmingSteps ++ [timerOverdue], k.Mirrored) ∧
      timerOverdue.RearmsEarly systemTable ∧
      (¬ (timerOverdue.stepped systemTable).timerPends ∧
        (timerOverdue.stepped systemTable).timersWaiting = 1) ∧
      ¬ ∀ k ∈ (rearmingSteps ++ [timerOverdue]) ++ [timerOverdue.stepped systemTable],
        k.Mirrored := by
  have hreset : AtReset rearming := atReset_launch ..
  have hearly : timerOverdue.RearmsEarly systemTable := by decide +kernel
  have hwaiting : timerOverdue.started.timersWaiting = 1 := by decide +kernel
  have htrail : Trail systemTable (fun _ => False) rearming rearmingSteps timerOverdue :=
    trail_timerOverdue
  obtain ⟨-, hbefore, harms⟩ := mirrored_iff_never_early systemSets_standard build_systemSets
    (fun _ => False.elim) rfl hreset htrail (by decide +kernel)
  obtain ⟨-, hafter, -⟩ := mirrored_iff_never_early systemSets_standard build_systemSets
    (fun _ => False.elim) rfl hreset htrail.step (by decide +kernel)
  refine ⟨hbefore.2 (by decide +kernel), hearly, ?_, ?_⟩
  · rw [← hwaiting]
    exact harms hearly.1
  · intro hall
    exact hafter.1 hall timerOverdue (by simp) hearly

/-- The bit does not mirror the queue in all runs. -/
theorem not_always_mirrored :
    ¬ ∀ (sets : List InstructionSet) (table : DispatchTable) (h₀ h : Hart) (steps : List Hart),
      (∀ s ∈ sets, s ∈ InstructionSet.standard) → DispatchTable.build sets = .ok table →
      h₀.privileged = true → AtReset h₀ → Trail table (fun _ => False) h₀ steps h →
      (∀ k ∈ steps, k.written? table ≠ some Csr.mip) → h.Mirrored := by
  intro hall
  have hmirrored := hall systemSets systemTable rearming (timerOverdue.stepped systemTable) _
    systemSets_standard build_systemSets rfl (atReset_launch ..) trail_timerOverdue.step
    (by decide +kernel)
  have hwaits : 0 < (timerOverdue.stepped systemTable).timersWaiting := by decide +kernel
  have hcleared : ¬ (timerOverdue.stepped systemTable).timerPends := by decide +kernel
  exact hcleared (hmirrored.pends_iff.2 hwaits)

end Riscv32.Hart
