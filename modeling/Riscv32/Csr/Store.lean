import Riscv32.Csr.Address
import Riscv32.Csr.Field
import Std.Data.TreeMap

/-!
# The store of control registers

A register is a slot with a raw word. The kind of the slot says how a read is computed from
it and from the counters, and what a write does beyond storing; the host may add a function
that alters what is read and one that alters what is stored. Reading a slot that was never
touched gives zero, and any write or registration creates the slot.
-/
namespace Riscv32.Csr

/-- What a slot computes on a read or causes on a write. -/
inductive Kind
  | plain
  | cycleLow
  | cycleHigh
  | instretLow
  | instretHigh
  | hartId
  | timeLow
  | timeHigh
  | timerCompareLow
  | timerCompareHigh
  | floatFlags
  | floatRoundingMode
  | halt
  deriving DecidableEq, Inhabited

/-- The free-running counters at the moment of a read. -/
structure Counters where
  cycle : Counter := 0
  instret : Counter := 0
  time : Counter := 0
  hartId : Word := 0
  deriving DecidableEq

/-- What the writer of a register has to carry out. -/
inductive Effect
  | none
  | halt (code : Word)
  | armTimer (compare : Counter)
  deriving DecidableEq

/-- One control register. -/
structure Slot where
  raw : Word := 0
  kind : Kind := .plain
  getter : Option (Word → Word → Word) := none
  setter : Option (Word → Word → Word → Word) := none

instance : Inhabited Slot := ⟨{}⟩

/-- The control registers that hold state, by address. -/
structure Store where
  slots : Std.TreeMap Word Slot := ∅

/-- The low word of a counter. -/
def lowWord (n : Counter) : Word := n.setWidth 32

/-- The high word of a counter. -/
def highWord (n : Counter) : Word := n.extractLsb' 32 32

namespace Store

/-- The store without slots. -/
def empty : Store := {}

/-- The slot of an address, the default one if there is none. -/
def slot (s : Store) (addr : Word) : Slot := s.slots.getD addr {}

/-- The stored word, whatever the kind of the slot. -/
def raw (s : Store) (addr : Word) : Word := (s.slot addr).raw

/-- Replaces the slot of an address. -/
def setSlot (s : Store) (addr : Word) (slot : Slot) : Store := ⟨s.slots.insert addr slot⟩

/-- Stores a word, without any function of the host and without any effect. -/
def setRaw (s : Store) (addr v : Word) : Store := s.setSlot addr { s.slot addr with raw := v }

/-- Gives a slot a kind. -/
def register (s : Store) (addr : Word) (kind : Kind) : Store :=
  s.setSlot addr { s.slot addr with kind }

/-- Gives a slot the functions of the host. -/
def setCallbacks (s : Store) (addr : Word) (getter : Option (Word → Word → Word))
    (setter : Option (Word → Word → Word → Word)) : Store :=
  s.setSlot addr { s.slot addr with getter, setter }

/-- The addresses that hold state, in ascending order. -/
def addresses (s : Store) : List Word := s.slots.keys

@[simp] theorem slot_setSlot (s : Store) (a b : Word) (x : Slot) :
    (s.setSlot a x).slot b = if a = b then x else s.slot b := by
  simp [slot, setSlot, Std.TreeMap.getD_insert]

@[simp] theorem raw_setRaw (s : Store) (a b v : Word) :
    (s.setRaw a v).raw b = if a = b then v else s.raw b := by
  unfold raw setRaw
  rw [slot_setSlot]
  split <;> rfl

/-- What each address of a new store is. -/
def initialKinds : List (Word × Kind) :=
  [(cycle, .cycleLow), (cycleh, .cycleHigh), (mcycle, .cycleLow), (mcycleh, .cycleHigh),
    (instret, .instretLow), (instreth, .instretHigh), (minstret, .instretLow),
    (minstreth, .instretHigh), (time, .timeLow), (timeh, .timeHigh), (mhartid, .hartId),
    (mtimecmp, .timerCompareLow), (mtimecmph, .timerCompareHigh), (fflags, .floatFlags),
    (frm, .floatRoundingMode), (Csr.halt, .halt)]

/-- The store after reset: the virtual registers, `misa`, and a timer comparison of ones. -/
def initial : Store :=
  (((initialKinds.foldl (fun s (addr, kind) => s.register addr kind) empty).setRaw
    misa misaReset).setRaw mtimecmp (-1)).setRaw mtimecmph (-1)

/-- The value that the two timer comparison registers hold together. -/
def timerCompare (s : Store) : Counter := s.raw mtimecmph ++ s.raw mtimecmp

/-- The value of a slot before any function of the host sees it. -/
def value (s : Store) (slot : Slot) (c : Counters) : Word :=
  match slot.kind with
  | .plain | .timerCompareLow | .timerCompareHigh | .halt => slot.raw
  | .cycleLow => lowWord c.cycle
  | .cycleHigh => highWord c.cycle
  | .instretLow => lowWord c.instret
  | .instretHigh => highWord c.instret
  | .timeLow => lowWord c.time
  | .timeHigh => highWord c.time
  | .hartId => c.hartId
  | .floatFlags => BitField.floatFlags.get (s.raw fcsr)
  | .floatRoundingMode => BitField.roundingMode.get (s.raw fcsr)

/-- Reads a register. -/
def get (s : Store) (addr : Word) (c : Counters) : Word :=
  let slot := s.slot addr
  match slot.getter with
  | none => s.value slot c
  | some getter => getter addr (s.value slot c)

/-- Replaces a field of a raw word. -/
def setField (s : Store) (addr : Word) (f : BitField) (v : Word) : Store :=
  s.setRaw addr (f.set (s.raw addr) v)

/-- Writes a register and says what the writer has to carry out. -/
def set (s : Store) (addr v : Word) : Effect × Store :=
  let slot := s.slot addr
  let stored := match slot.setter with
    | none => v
    | some setter => setter addr slot.raw v
  let s := s.setRaw addr stored
  match slot.kind with
  | .halt => (if stored = 0 then .none else .halt stored, s)
  | .timerCompareLow | .timerCompareHigh => (.armTimer s.timerCompare, s)
  | .floatFlags => (.none, s.setField fcsr .floatFlags stored)
  | .floatRoundingMode => (.none, s.setField fcsr .roundingMode stored)
  | _ => (.none, s)

/-- Reads a field of `mstatus`. -/
def mstatusField (s : Store) (f : MstatusField) : Word := f.bits.get (s.raw mstatus)

/-- Writes a field of `mstatus`. -/
def setMstatusField (s : Store) (f : MstatusField) (v : Word) : Store :=
  s.setField mstatus f.bits v

end Store
end Riscv32.Csr
