import Riscv32.Privilege
import Riscv32.Trap

/-!
# Pending traps

Traps wait in the order in which they were raised. Delivery takes the most recent one; while
interrupts are disabled it takes the most recent exception and leaves every interrupt where
it is. Exceptions are never held back, since a hart that kept one pending would fault on the
same instruction for ever.
-/
namespace Riscv32

/-- A raised trap and the privilege of its handler. -/
structure TrapEvent where
  trap : Trap
  target : Privilege
  deriving DecidableEq

/-- The event that delivers a trap to machine mode. -/
def TrapEvent.machine (t : Trap) : TrapEvent := ⟨t, .machine⟩

/-- Traps awaiting delivery, the most recently raised first. -/
structure TrapQueue where
  newestFirst : List TrapEvent := []
  deriving DecidableEq

namespace TrapQueue

/-- The queue without traps. -/
def empty : TrapQueue := ⟨[]⟩

/-- The waiting traps, oldest first. -/
def toList (q : TrapQueue) : List TrapEvent := q.newestFirst.reverse

/-- Adds a trap behind those already waiting. -/
def push (q : TrapQueue) (e : TrapEvent) : TrapQueue := ⟨e :: q.newestFirst⟩

/-- Whether the event may be delivered in the given state of the interrupt-enable bit. -/
def deliverable (interruptsEnabled : Bool) (e : TrapEvent) : Bool :=
  interruptsEnabled || !e.trap.isInterrupt

/-- Takes out the first element that satisfies `p`. -/
def extract? (p : TrapEvent → Bool) : List TrapEvent → Option (TrapEvent × List TrapEvent)
  | [] => none
  | e :: es =>
    if p e then some (e, es) else (extract? p es).map fun (found, rest) => (found, e :: rest)

/-- The most recent deliverable event and the queue without it. -/
def pop? (q : TrapQueue) (interruptsEnabled : Bool) : Option (TrapEvent × TrapQueue) :=
  (extract? (deliverable interruptsEnabled) q.newestFirst).map fun (e, rest) => (e, ⟨rest⟩)

/-- Whether an interrupt is waiting, which ends a wait for interrupts. -/
def hasInterrupt (q : TrapQueue) : Bool := q.newestFirst.any (·.trap.isInterrupt)

/-- The count of waiting traps. -/
def size (q : TrapQueue) : Nat := q.newestFirst.length

/-- Whether no trap is waiting. -/
def isEmpty (q : TrapQueue) : Bool := q.newestFirst.isEmpty

@[simp] theorem toList_push (q : TrapQueue) (e : TrapEvent) :
    (q.push e).toList = q.toList ++ [e] := by simp [push, toList]

@[simp] theorem size_push (q : TrapQueue) (e : TrapEvent) : (q.push e).size = q.size + 1 := rfl

/-- A trap that may be delivered is delivered before all that were raised earlier. -/
theorem pop?_push {e : TrapEvent} {enabled : Bool} (h : deliverable enabled e = true)
    (q : TrapQueue) : (q.push e).pop? enabled = some (e, q) := by
  simp [pop?, push, extract?, h]

/-- A trap that is held back does not keep earlier ones from being delivered. -/
theorem pop?_push_of_held {e : TrapEvent} {enabled : Bool} (h : deliverable enabled e = false)
    (q : TrapQueue) :
    (q.push e).pop? enabled = (q.pop? enabled).map fun (found, rest) => (found, rest.push e) := by
  simp [pop?, push, extract?, h, Function.comp_def]

@[simp] theorem toList_empty : empty.toList = [] := rfl

end TrapQueue
end Riscv32
