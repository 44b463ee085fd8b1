import Riscv32.Hart.Exec

/-!
# Atomic instructions

A hart holds at most one reservation. A load takes one, and a conditional store succeeds only
if it is still held on the same address; the store gives it up in any case.
-/
namespace Riscv32.Exec

/-- The address in the register at position 1, or a trap if it is no multiple of four. -/
def alignedAddress (misaligned : Word → Trap) (inst : Instruction) : Exec Word := do
  let addr ← readX (← inst.register 1)
  if addr.isAligned then return addr else trap (misaligned addr)

/-- Loads a word and takes a reservation on its address. -/
def loadReserved (inst : Instruction) : Exec Unit := do
  let rd ← inst.register 0
  let addr ← alignedAddress .loadAddressMisaligned inst
  let v ← load addr 4
  writeX rd (BitVec.ofNat 32 v)
  modify fun h => h.reserve addr

/-- Gives up the reservation and tells whether it was held on the address. -/
def takeReservation (addr : Word) : Exec Bool := modifyGet fun h => h.takeReservation addr

/-- Stores a word if the reservation is held, and writes zero if it did and one if not. -/
def storeConditional (inst : Instruction) : Exec Unit := do
  let rd ← inst.register 0
  let addr ← alignedAddress .storeAddressMisaligned inst
  let v ← readX (← inst.register 2)
  if ← takeReservation addr then
    store addr 4 v.toNat
    writeX rd 0
  else
    writeX rd 1

/-- Replaces a word in memory by the result of an operation on it and a register, and writes
the old word. -/
def readModifyWrite (op : Word → Word → Word) (inst : Instruction) : Exec Unit := do
  let rd ← inst.register 0
  let addr ← alignedAddress .storeAddressMisaligned inst
  let operand ← readX (← inst.register 2)
  let old := BitVec.ofNat 32 (← load addr 4)
  store addr 4 (op old operand).toNat
  writeX rd old

/-- The lesser of two words in an order. -/
def lesser (less : Word → Word → Bool) (x y : Word) : Word := if less y x then y else x

/-- The greater of two words in an order. -/
def greater (less : Word → Word → Bool) (x y : Word) : Word := if less x y then y else x

/-- The atomic instructions. -/
def atomicHandlers : List (String × Handler) :=
  [("lr.w", loadReserved),
    ("sc.w", storeConditional),
    ("amoswap.w", readModifyWrite fun _ y => y),
    ("amoadd.w", readModifyWrite (· + ·)),
    ("amoxor.w", readModifyWrite (· ^^^ ·)),
    ("amoand.w", readModifyWrite (· &&& ·)),
    ("amoor.w", readModifyWrite (· ||| ·)),
    ("amomin.w", readModifyWrite (lesser BitVec.slt)),
    ("amomax.w", readModifyWrite (greater BitVec.slt)),
    ("amominu.w", readModifyWrite (lesser BitVec.ult)),
    ("amomaxu.w", readModifyWrite (greater BitVec.ult))]

end Riscv32.Exec
