import Riscv32.Instruction.Text
import Riscv32.Memory.Bytes

/-!
# Sections

A section is a contiguous part of the address space with a name, an owner and permissions. It
holds bytes, or instructions that were never words. Fetching from bytes decodes a word and
remembers the outcome for its slot of four bytes; a write forgets every slot it touches. The
memory of decoded slots is never needed for the result of a fetch, only for its speed.
-/
namespace Riscv32

/-- What may be done with a section beyond reading it. -/
structure Permissions where
  readOnly : Bool := false
  executable : Bool := false
  deriving DecidableEq

namespace Permissions

/-- Data that may be written. -/
def data : Permissions := ⟨false, false⟩

/-- Data that may only be read. -/
def constants : Permissions := ⟨true, false⟩

/-- Code that may only be read and executed. -/
def code : Permissions := ⟨true, true⟩

/-- Code that may be written as well. -/
def writableCode : Permissions := ⟨false, true⟩

/-- The permissions as three letters, a dash for one that is absent. -/
def text (p : Permissions) : String :=
  "r" ++ (if p.readOnly then "-" else "w") ++ (if p.executable then "x" else "-")

end Permissions

/-- Decoded slots of a byte section, by the number of the slot. -/
abbrev DecodeCache := Std.TreeMap Nat Decoded

namespace DecodeCache

/-- Forgets `count` slots from `first` on. -/
def forget (cache : DecodeCache) (first count : Nat) : DecodeCache :=
  (List.range' first count).foldl (fun d s => d.erase s) cache

/-- Forgets the slots that `length` bytes from an offset on touch. -/
def invalidate (cache : DecodeCache) (offset length : Nat) : DecodeCache :=
  if length = 0 then cache
  else cache.forget (offset / 4) ((offset + length - 1) / 4 + 1 - offset / 4)

theorem getElem?_foldl_erase (slots : List Nat) (cache : DecodeCache) (slot : Nat) :
    (slots.foldl (fun d s => d.erase s) cache)[slot]? =
      if slot ∈ slots then none else cache[slot]? := by
  induction slots generalizing cache with
  | nil => simp
  | cons s slots ih =>
    rw [List.foldl_cons, ih, Std.TreeMap.getElem?_erase]
    by_cases h : slot ∈ slots
    · simp [h]
    · by_cases hs : s = slot
      · simp [h, hs]
      · simp [h, hs, Ne.symm hs]

@[simp] theorem getElem?_forget (cache : DecodeCache) (first count slot : Nat) :
    (cache.forget first count)[slot]? =
      if first ≤ slot ∧ slot < first + count then none else cache[slot]? := by
  simp [forget, getElem?_foldl_erase, List.mem_range'_1]

end DecodeCache

/-- What a section holds. -/
inductive SectionContents
  | bytes (store : ByteStore) (decoded : DecodeCache)
  | instructions (list : Array Instruction)

/-- A part of the address space. -/
structure Section where
  name : String
  owner : String := ""
  base : Word
  permissions : Permissions
  contents : SectionContents

namespace Section

/-- A section of zeros. -/
def zeroed (name : String) (base : Word) (size : Nat) (permissions : Permissions) : Section :=
  { name, base, permissions, contents := .bytes (.zeros size) ∅ }

/-- A section that holds the given bytes. -/
def ofBytes (name : String) (base : Word) (permissions : Permissions) (bytes : List Byte) :
    Section :=
  { name, base, permissions, contents := .bytes (.ofList bytes) ∅ }

/-- A section that holds the given words. -/
def ofWords (name : String) (base : Word) (permissions : Permissions) (words : List Word) :
    Section :=
  ofBytes name base permissions (words.flatMap fun w => littleEndian 4 w.toNat)

/-- A section that holds instructions, each taking up four bytes. -/
def ofInstructions (name : String) (base : Word) (permissions : Permissions)
    (list : List Instruction) : Section :=
  { name, base, permissions, contents := .instructions list.toArray }

/-- The length in bytes. -/
def size (s : Section) : Nat :=
  match s.contents with
  | .bytes store _ => store.size
  | .instructions list => 4 * list.size

/-- The first address behind the section, which may be two to the power of 32. -/
def endAddress (s : Section) : Nat := s.base.toNat + s.size

/-- Whether the address lies in the section. -/
def contains (s : Section) (addr : Word) : Bool :=
  decide (s.base ≤ addr) && decide (addr.toNat < s.endAddress)

/-- Whether two sections intersect as ranges; an empty section intersects one that it lies
strictly inside of. -/
def overlaps (s t : Section) : Bool :=
  decide (s.base.toNat < t.endAddress) && decide (t.base.toNat < s.endAddress)

/-- The bytes of the section, unless it holds instructions. -/
def bytes? (s : Section) : Option (List Byte) :=
  match s.contents with
  | .bytes store _ => some store.toList
  | .instructions _ => none

/-- Whether the section holds instructions instead of bytes. -/
def holdsInstructions (s : Section) : Bool :=
  match s.contents with
  | .bytes _ _ => false
  | .instructions _ => true

/-- The count of slots with a remembered instruction. -/
def decodedCount (s : Section) : Nat :=
  match s.contents with
  | .bytes _ decoded => decoded.size
  | .instructions _ => 0

/-- The byte at an address, if the section holds bytes and contains the address. -/
def byteAt? (s : Section) (addr : Word) : Option Byte :=
  match s.contents with
  | .bytes store _ =>
    if s.contains addr then some (store.get (addr.toNat - s.base.toNat)) else none
  | .instructions _ => none

/-- The offset of an access, all of which has to lie in the section. -/
def offset (s : Section) (addr : Word) (size : Nat) (access : AccessKind) :
    Except MemoryError Nat :=
  if s.base ≤ addr ∧ addr.toNat + size ≤ s.endAddress then .ok (addr.toNat - s.base.toNat)
  else .error (.outOfBounds addr size access)

/-- Reads bytes. -/
def read (s : Section) (addr : Word) (size : Nat) : Except MemoryError (List Byte) :=
  match s.offset addr size .read, s.contents with
  | .error e, _ => .error e
  | .ok offset, .bytes store _ => .ok (store.read offset size)
  | .ok _, .instructions _ => .error (.rawAccessToInstructions addr .read s.name)

/-- Writes bytes. -/
def write (s : Section) (addr : Word) (data : List Byte) : Except MemoryError Section :=
  if s.permissions.readOnly then .error (.readOnly addr data.length s.name)
  else
    match s.offset addr data.length .write, s.contents with
    | .error e, _ => .error e
    | .ok offset, .bytes store decoded =>
      .ok { s with
        contents := .bytes (store.write offset data) (decoded.invalidate offset data.length) }
    | .ok _, .instructions _ => .error (.rawAccessToInstructions addr .write s.name)

/-- The word in a slot of four bytes. -/
def wordInSlot (store : ByteStore) (slot : Nat) : Word :=
  BitVec.ofNat 32 (ofLittleEndian (store.read (4 * slot) 4))

/-- The instruction in a slot, with the section after the instruction was remembered. -/
def fetchSlot (s : Section) (addr : Word) (slot : Nat) :
    Except MemoryError (Instruction × Section) :=
  match s.contents with
  | .instructions list =>
    match list[slot]? with
    | some inst => .ok (inst, s)
    | none => .error (.outOfBounds addr 4 .fetch)
  | .bytes store decoded =>
    match decoded[slot]? with
    | some d => .ok (.raw d, s)
    | none =>
      match decode (wordInSlot store slot) with
      | .error e => .error (.decode e)
      | .ok d => .ok (.raw d, { s with contents := .bytes store (decoded.insert slot d) })

/-- Fetches an instruction, which has to lie at a multiple of four bytes from the base. The
second component is the section with the instruction remembered. -/
def fetch (s : Section) (addr : Word) : Except MemoryError (Instruction × Section) :=
  if !s.permissions.executable then .error (.notExecutable addr s.name)
  else if !(addr - s.base).isAligned then .error (.misalignedFetch addr)
  else
    match s.offset addr 4 .fetch with
    | .error e => .error e
    | .ok offset => s.fetchSlot addr (offset / 4)

/-- Inserts a section behind all those whose base is not above its own. -/
def insertByBase (s : Section) : List Section → List Section
  | [] => [s]
  | t :: ts => if t.base ≤ s.base then t :: insertByBase s ts else s :: t :: ts

/-- The failure to add a section to others, if one of them overlaps it. -/
def conflict? (s : Section) (others : List Section) : Option PlacementError :=
  (others.find? (·.overlaps s)).map fun other => .overlap s.name s.base s.size other.name

theorem contains_iff (s : Section) (addr : Word) :
    s.contains addr = true ↔ s.base.toNat ≤ addr.toNat ∧ addr.toNat < s.endAddress := by
  simp [contains, BitVec.le_def]

/-- Intersection does not depend on the order of the sections. -/
theorem overlaps_comm (s t : Section) : s.overlaps t = t.overlaps s := Bool.and_comm _ _

@[simp] theorem mem_insertByBase {s t : Section} {l : List Section} :
    t ∈ s.insertByBase l ↔ t = s ∨ t ∈ l := by
  induction l with
  | nil => simp [insertByBase]
  | cons u us ih =>
    by_cases h : u.base ≤ s.base
    · rw [insertByBase, if_pos h, List.mem_cons, ih, List.mem_cons]
      exact or_left_comm
    · rw [insertByBase, if_neg h, List.mem_cons]

/-- A write leaves the place and the size of a section alone. -/
theorem endAddress_write {s t : Section} {addr : Word} {data : List Byte}
    (h : s.write addr data = .ok t) : t.base = s.base ∧ t.endAddress = s.endAddress := by
  unfold write at h
  split at h
  case isTrue => cases h
  case isFalse =>
    split at h
    case h_1 => cases h
    case h_2 hc =>
      cases h
      exact ⟨rfl, by simp [endAddress, size, hc]⟩
    case h_3 => cases h

end Section
end Riscv32
