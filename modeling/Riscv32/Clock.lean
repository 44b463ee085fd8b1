import Riscv32.Word

/-!
# Clock and timer

The clock counts ticks and stops at the last one it can count. The timer fires once, at the
first poll that finds the clock past the value the timer was armed with.
-/
namespace Riscv32

/-- A tick counter that the host moves forward. -/
structure Clock where
  now : Counter := 0
  deriving DecidableEq

/-- The last tick of the clock. -/
def Clock.lastTick : Counter := -1

/-- Moves the clock forward, but not past its last tick. -/
def Clock.advance (c : Clock) (ticks : Counter) : Clock :=
  ⟨if lastTick - c.now < ticks then lastTick else c.now + ticks⟩

/-- The clock counts all ticks until it stops. -/
theorem Clock.toNat_now_advance (c : Clock) (ticks : Counter) :
    (c.advance ticks).now.toNat = min lastTick.toNat (c.now.toNat + ticks.toNat) := by
  have hc := c.now.isLt
  have ht := ticks.isLt
  have hl : lastTick.toNat = 2 ^ 64 - 1 := rfl
  unfold advance
  split
  case isTrue h =>
    rw [BitVec.lt_def, BitVec.toNat_sub, hl] at h
    simp only [hl]
    omega
  case isFalse h =>
    rw [BitVec.lt_def, BitVec.toNat_sub, hl] at h
    simp only [BitVec.toNat_add, hl]
    omega

/-- A one-shot comparison with the clock. -/
structure Timer where
  compare : Counter := 0
  armed : Bool := false
  deriving DecidableEq

namespace Timer

/-- Arms the timer to fire once the clock exceeds `compare`. -/
def arm (_ : Timer) (compare : Counter) : Timer := ⟨compare, true⟩

/-- Whether the timer fires at `now`. -/
def fires (t : Timer) (now : Counter) : Bool := t.armed && decide (t.compare < now)

/-- The timer after a poll at `now`: disarmed if it fires, otherwise unchanged. -/
def poll (t : Timer) (now : Counter) : Timer :=
  if t.fires now then { t with armed := false } else t

/-- A timer that has just fired does not fire again. -/
theorem fires_poll {t : Timer} {now later : Counter} (h : t.fires now = true) :
    (t.poll now).fires later = false := by
  rw [poll, if_pos h]
  rfl

end Timer
end Riscv32
