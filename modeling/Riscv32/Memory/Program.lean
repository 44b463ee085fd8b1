import Riscv32.Memory.Section
import Std.Data.TreeSet

/-!
# Programs

A program is a list of sections, sorted by base, and a table of labels, some of them exported.
Until it is placed its bases and labels count from zero; placing it adds the base to all of
them but the absolute labels, once.
-/
namespace Riscv32

/-- Addresses by name. -/
abbrev SymbolTable := Std.TreeMap String Word

/-- A program that can be loaded. -/
structure Program where
  name : String
  sections : List Section := []
  labels : SymbolTable := ∅
  absolute : Std.TreeSet String := ∅
  exported : Std.TreeSet String := ∅
  base : Option Word := none

/-- The count of addresses. -/
def addressCount : Nat := 0x100000000

namespace Program

/-- The label at which execution starts. -/
def entryLabel : String := "_start"

/-- The label at which execution starts if there is no entry label. -/
def mainLabel : String := "main"

/-- Whether bases and labels are addresses. -/
def isPlaced (p : Program) : Bool := p.base.isSome

/-- Adds a section, which must not overlap one of the program. -/
def addSection (p : Program) (s : Section) : Except PlacementError Program :=
  match s.conflict? p.sections with
  | some e => .error e
  | none => .ok { p with sections := Section.insertByBase { s with owner := p.name } p.sections }

/-- Defines a label that placement moves. -/
def addLabel (p : Program) (name : String) (addr : Word) : Program :=
  { p with absolute := p.absolute.erase name, labels := p.labels.insert name addr }

/-- Defines a label that placement leaves alone. -/
def addAbsoluteLabel (p : Program) (name : String) (addr : Word) : Program :=
  { p with absolute := p.absolute.insert name, labels := p.labels.insert name addr }

/-- Whether placement leaves the label alone. -/
def isAbsoluteLabel (p : Program) (name : String) : Bool := p.absolute.contains name

/-- Makes a label visible to all programs once the program is loaded. -/
def exportLabel (p : Program) (name : String) : Program :=
  { p with exported := p.exported.insert name }

/-- Whether the section, moved up by `base`, stays below the end of the address space. -/
def fitsAt (base : Word) (s : Section) : Bool :=
  decide (s.base.toNat + base.toNat < addressCount) &&
    decide (s.endAddress + base.toNat ≤ addressCount)

/-- The program moved to `base`. -/
def shifted (p : Program) (base : Word) : Program :=
  { p with
    sections := p.sections.map fun s => { s with base := s.base + base }
    labels := p.labels.map fun name addr => if p.absolute.contains name then addr else addr + base
    base := some base }

/-- Places a program. One that has a place can only be placed there again. -/
def placeAt (p : Program) (base : Word) : Except PlacementError Program :=
  match p.base with
  | some fixed => if fixed = base then .ok p else .error (.relocation p.name fixed base)
  | none =>
    match p.sections.find? fun s => !fitsAt base s with
    | some s => .error (.addressOverflow s.name)
    | none => .ok (p.shifted base)

/-- The highest end of the sections, zero if there are none. -/
def highestEnd (sections : List Section) : Nat :=
  sections.foldl (fun e s => max e s.endAddress) 0

/-- The distance from the lowest base to the highest end, as a word. -/
def size (p : Program) : Word :=
  match p.sections with
  | [] => 0
  | first :: _ => BitVec.ofNat 32 (highestEnd p.sections - first.base.toNat)

/-- The base of the first executable section. -/
def firstExecutable? (sections : List Section) : Option Word :=
  (sections.find? (·.permissions.executable)).map (·.base)

/-- The label at which a program with the given labels starts. -/
def entryOf? (labels : SymbolTable) : Option Word :=
  labels[entryLabel]?.or labels[mainLabel]?

/-- Where execution starts: at the entry label, or else at the first executable section. -/
def entryPoint? (p : Program) : Option Word :=
  (entryOf? p.labels).or (firstExecutable? p.sections)

end Program
end Riscv32
