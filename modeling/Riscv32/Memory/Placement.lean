import Riscv32.Memory.AddressSpace

/-!
# Placement

How sections come into an address space: handed in one by one, brought along by a program, or
allocated in the first gap that is large enough. A program without a place goes behind
everything that is not owned by the system. Placement either succeeds as a whole or leaves the
address space as it was.
-/
namespace Riscv32.AddressSpace

/-- Inserts a section in the order of the bases. -/
def insertSection (m : AddressSpace) (s : Section) : AddressSpace :=
  { m with sections := s.insertByBase m.sections }

/-- Adds a section, which must not overlap one that is there. -/
def addSection (m : AddressSpace) (s : Section) : Except PlacementError AddressSpace :=
  match s.conflict? m.sections with
  | some e => .error e
  | none => .ok (m.insertSection s)

/-- The least multiple of the load alignment behind every section that the system does not
own, and not below the load alignment itself. -/
def nextLoadBase (m : AddressSpace) : Nat :=
  let top := Program.highestEnd (m.sections.filter (·.owner != systemOwner))
  alignUp (max top m.loadAlignment) m.loadAlignment

/-- Where a program goes: where it is asked to, else where it already is, else behind all
loaded sections. -/
def chooseBase (m : AddressSpace) (p : Program) (requested : Option Word) :
    Except PlacementError Word :=
  match requested.or p.base with
  | some base => .ok base
  | none =>
    if m.nextLoadBase < addressCount then .ok (BitVec.ofNat 32 m.nextLoadBase)
    else .error (.addressOverflow p.name)

/-- The failure to take a placed program in: an overlap, or an exported name that is already
global. -/
def refusal? (m : AddressSpace) (p : Program) : Option PlacementError :=
  (p.sections.findSome? (·.conflict? m.sections)).or
    ((p.exported.toList.find? (m.globals.contains ·)).map .duplicateGlobal)

/-- The global symbols with those that a program exports and defines. -/
def globalsWith (m : AddressSpace) (p : Program) : SymbolTable :=
  p.exported.toList.foldl (fun globals name =>
    match p.labels[name]? with
    | some addr => globals.insert name addr
    | none => globals) m.globals

/-- The address space with the sections, labels and exports of a placed program. -/
def withProgram (m : AddressSpace) (p : Program) (base : Word) : AddressSpace :=
  { m with
    globals := m.globalsWith p
    sections := p.sections.foldl (fun all s => s.insertByBase all) m.sections
    programs := m.programs ++ [⟨p.name, base, p.labels⟩] }

/-- Loads a program and gives the base it was placed at. -/
def load (m : AddressSpace) (p : Program) (requested : Option Word) :
    Except PlacementError (Word × AddressSpace) := do
  let base ← m.chooseBase p requested
  let placed ← p.placeAt base
  match m.refusal? placed with
  | some e => throw e
  | none => return (base, m.withProgram placed base)

/-- The first position at or above `cursor` with a gap of the given size, in sections sorted by
base. -/
def firstGap (size : Nat) : Nat → List Section → Nat
  | cursor, [] => cursor
  | cursor, s :: rest =>
    if cursor + size ≤ s.base.toNat then cursor
    else firstGap size (max cursor (alignUp s.endAddress windowAlignment)) rest

/-- Allocates a section of zeros in the first gap at or above the load alignment and gives its
base. -/
def allocate (m : AddressSpace) (name : String) (size : Nat) (permissions : Permissions) :
    Except MemoryError (Word × AddressSpace) :=
  let base := firstGap size m.loadAlignment m.sections
  if mappableEnd < base + size then .error (.outOfMemory name size)
  else
    let s : Section := { Section.zeroed name (BitVec.ofNat 32 base) size permissions with
      owner := systemOwner }
    .ok (s.base, m.insertSection s)

/-- The address of a symbol: in the labels of the first program that has it, else among the
global symbols. -/
def symbol? (m : AddressSpace) (name : String) : Option Word :=
  (m.programs.findSome? (·.labels[name]?)).or m.globals[name]?

/-- Where execution starts: at the global entry label, else at the entry label of the first
program that has one, else at the first executable section. -/
def entryPoint? (m : AddressSpace) : Option Word :=
  (m.globals[Program.entryLabel]?.or (m.programs.findSome? (Program.entryOf? ·.labels))).or
    (Program.firstExecutable? m.sections)

/-- All labels and global symbols with their addresses. -/
def symbols (m : AddressSpace) : List (String × Word) :=
  m.programs.flatMap (·.labels.toList) ++ m.globals.toList

/-- Whether the first symbol describes an address better than the second: by a greater address
of its own, or at the same address by an earlier name. -/
def closer (x y : String × Word) : Bool :=
  decide (y.2 < x.2) || (x.2 == y.2 && decide (x.1 < y.1))

/-- The better of a symbol and those of a list. -/
def closest (best : Option (String × Word)) (x : String × Word) : Option (String × Word) :=
  match best with
  | none => some x
  | some y => if closer x y then some x else some y

/-- The symbol that describes an address: the nearest one at or below it that does not lie
below the section of the address. -/
def nearestSymbol? (m : AddressSpace) (addr : Word) : Option (String × Word) :=
  let floor := ((m.sectionFor? addr).map (·.base)).getD 0
  (m.symbols.filter fun s => decide (s.2 ≤ addr) && decide (floor ≤ s.2)).foldl closest none

/-- The text of an address: its symbol and the distance from it, or the number alone. -/
def addressText (m : AddressSpace) (addr : Word) : String :=
  match m.nearestSymbol? addr with
  | none => Numeral.hexWord addr
  | some (name, base) =>
    if base = addr then name else s!"{name}+{Numeral.hex (addr - base).toNat}"

/-- A line of the section table. -/
def tableLine (base last flags name owner : String) : String :=
  Numeral.columnLeft 10 base ++ " " ++ Numeral.columnLeft 10 last ++ " "
    ++ Numeral.columnLeft 4 flags ++ " " ++ Numeral.columnLeft 16 name ++ " " ++ owner ++ "\n"

/-- The section table. -/
def text (m : AddressSpace) : String :=
  tableLine "base" "end" "flg" "name" "owner" ++
    String.join (m.sections.map fun s =>
      tableLine (Numeral.hexWord s.base) (Numeral.hexPadded 8 s.endAddress) s.permissions.text
        s.name s.owner)

end Riscv32.AddressSpace
