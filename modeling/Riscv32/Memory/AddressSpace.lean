import Riscv32.Memory.Program

/-!
# The address space

The sections of an address space are kept in order of their bases. An access goes to the last
section whose base is not above the address. If that section does not contain the address, the
access is out of bounds, except in a lazily mapped space, where it maps a window of zeros
around the address into the gap. What an access maps stays mapped even if the access then
fails.
-/
namespace Riscv32

/-- A program after it was loaded. -/
structure LoadedProgram where
  name : String
  base : Word
  labels : SymbolTable

/-- The memory of a hart with the programs in it. -/
structure AddressSpace where
  sections : List Section := []
  programs : List LoadedProgram := []
  globals : SymbolTable := ∅
  lazyMapping : Bool := false
  loadAlignment : Nat := 0x1000

/-- An access to memory: it may fail, and what it mapped before failing stays mapped. -/
abbrev Access := EStateM MemoryError AddressSpace

namespace AddressSpace

/-- The owner of sections that no program brought along. -/
def systemOwner : String := "<mmu>"

/-- The end of the part of the address space in which sections are mapped on demand. -/
def mappableEnd : Nat := 0x7FFFFFFF

/-- How far the window mapped on demand reaches to either side of the address. -/
def windowReach : Nat := 0xFFFF

/-- The alignment of sections mapped on demand or allocated. -/
def windowAlignment : Nat := 16

/-- The name of sections mapped on demand. -/
def windowName : String := ".empty"

/-- An empty space. The alignment of loaded programs is rounded up to a power of two. -/
def empty (lazyMapping : Bool) (loadAlignment : Nat) : AddressSpace :=
  { lazyMapping, loadAlignment := Nat.nextPowerOfTwo loadAlignment }

/-- The sections whose base is not above an address. -/
def below (m : AddressSpace) (addr : Word) : List Section :=
  m.sections.takeWhile fun s => decide (s.base ≤ addr)

/-- The sections whose base is above an address. -/
def above (m : AddressSpace) (addr : Word) : List Section :=
  m.sections.dropWhile fun s => decide (s.base ≤ addr)

/-- The section that answers for an address, with its position. -/
def locate? (m : AddressSpace) (addr : Word) : Option (Nat × Section) :=
  let front := m.below addr
  (front.getLast?.filter (·.contains addr)).map fun s => (front.length - 1, s)

/-- The section that answers for an address. -/
def sectionFor? (m : AddressSpace) (addr : Word) : Option Section :=
  (m.below addr).getLast?.filter (·.contains addr)

/-- Every section is below an address or above it. -/
theorem below_append_above (m : AddressSpace) (addr : Word) :
    m.below addr ++ m.above addr = m.sections := List.takeWhile_append_dropWhile

theorem mem_of_sectionFor? {m : AddressSpace} {addr : Word} {s : Section}
    (h : m.sectionFor? addr = some s) : s ∈ m.sections ∧ s.contains addr = true := by
  obtain ⟨hl, hc⟩ := Option.filter_eq_some_iff.1 h
  refine ⟨?_, hc⟩
  rw [← m.below_append_above addr]
  exact List.mem_append_left _ (List.mem_of_getLast? hl)

/-- The position and the answer of `locate?` belong together. -/
theorem map_snd_locate? (m : AddressSpace) (addr : Word) :
    (m.locate? addr).map Prod.snd = m.sectionFor? addr := by
  simp [locate?, sectionFor?, Function.comp_def]

/-- The first section of a name. -/
def sectionNamed? (m : AddressSpace) (name : String) : Option Section :=
  m.sections.find? (·.name == name)

/-- The owner of the section that answers for an address. -/
def ownerOf? (m : AddressSpace) (addr : Word) : Option String :=
  (m.sectionFor? addr).map (·.owner)

/-- The byte at an address, if a section of bytes answers for it. -/
def byteAt? (m : AddressSpace) (addr : Word) : Option Byte :=
  (m.sectionFor? addr).bind (·.byteAt? addr)

/-- The window around an unmapped address: a span of limited reach, cut off at the end of the
section below and at the base of the section above. -/
def window (m : AddressSpace) (addr : Word) : Section :=
  let previousEnd := ((m.below addr).getLast?.map (·.endAddress)).getD 0
  let nextBase := ((m.above addr).head?.map (·.base.toNat)).getD mappableEnd
  let lo := max previousEnd (alignDown (addr.toNat - windowReach) windowAlignment)
  let hi := min nextBase (alignUp (addr.toNat + windowReach) windowAlignment)
  { Section.zeroed windowName (BitVec.ofNat 32 lo) (hi - lo) .data with owner := systemOwner }

/-- The section that answers for an access, with its position in the returned space, which has
a new section if one had to be mapped. -/
def resolve (m : AddressSpace) (addr : Word) (size : Nat) (access : AccessKind) :
    Except MemoryError (Nat × Section × AddressSpace) :=
  match m.locate? addr with
  | some (i, s) => .ok (i, s, m)
  | none =>
    if m.lazyMapping && decide (addr.toNat < mappableEnd) then
      let front := m.below addr
      let s := m.window addr
      .ok (front.length, s, { m with sections := front ++ s :: m.above addr })
    else .error (.outOfBounds addr size access)

/-- Replaces the section at a position. -/
def setSection (m : AddressSpace) (i : Nat) (s : Section) : AddressSpace :=
  { m with sections := m.sections.set i s }

/-- Reads bytes. -/
def read (addr : Word) (size : Nat) : Access (List Byte) := fun m =>
  match m.resolve addr size .read with
  | .error e => .error e m
  | .ok (_, s, m) =>
    match s.read addr size with
    | .error e => .error e m
    | .ok bytes => .ok bytes m

/-- Writes bytes. -/
def write (addr : Word) (data : List Byte) : Access Unit := fun m =>
  match m.resolve addr data.length .write with
  | .error e => .error e m
  | .ok (i, s, m) =>
    match s.write addr data with
    | .error e => .error e m
    | .ok s => .ok () (m.setSection i s)

/-- Fetches an instruction. -/
def fetch (addr : Word) : Access Instruction := fun m =>
  match m.resolve addr 4 .fetch with
  | .error e => .error e m
  | .ok (i, s, m) =>
    match s.fetch addr with
    | .error e => .error e m
    | .ok (inst, s) => .ok inst (m.setSection i s)

/-- Reads a number of the given count of bytes, lowest byte first. -/
def readNat (addr : Word) (count : Nat) : Access Nat := do
  return ofLittleEndian (← read addr count)

/-- Writes the low bytes of a number, lowest byte first. -/
def writeNat (addr : Word) (count : Nat) (v : Nat) : Access Unit :=
  write addr (littleEndian count v)

end AddressSpace
end Riscv32
