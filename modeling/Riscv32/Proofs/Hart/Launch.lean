import Riscv32.Proofs.Memory.Allocation

/-!
# The stack of a hart

A launch gives an unprivileged hart a stack, unless it has a section of that name: its program may
have brought one along, or it was launched before. Then the launch leaves the memory and the stack
pointer alone. A stack that is allocated is the first section of its name, holds zeros, may be
written and keeps off all other sections, and the stack pointer is its end.

The size of the stack is a multiple of sixteen. So the stack pointer is one as well wherever the
stack begins at one.

## Main definitions

* `Hart.Configured c h` — the hart `h` has the settings of `c` and a memory that calls lead to.
* `Hart.OnStack size h s` — the stack pointer of `h` is the end of its stack, the section `s`.
* `Hart.Bootstraps c h h'` — what becomes of the memory and the registers of `h` in a launch.

## Main statements

* `Hart.Configured.launch`, the settings of a hart that was launched.
* `Hart.launch_bootstraps`, what a successful launch makes of an unprivileged hart.
-/
namespace Riscv32

/-- A stack that is configured has a size that is a multiple of sixteen. -/
theorem Config.dvd_stackSize {c : Config} (h : c.validate = .ok ()) :
    16 ∣ c.memory.stackSize.toNat := by
  unfold validate at h
  split at h
  case isTrue => cases h
  case isFalse =>
    split at h
    case isTrue => cases h
    case isFalse =>
      split at h
      case isTrue => cases h
      case isFalse hsize => exact Nat.dvd_of_mod_eq_zero (not_not.1 hsize)

namespace Hart

variable {c : Config} {h h' : Hart} {s : Section} {size : Word} {entry : Option Word}

/-- The hart has the settings that it was made with, and a memory that calls lead to. -/
structure Configured (c : Config) (h : Hart) : Prop where
  privileged : h.privileged = c.general.privileged
  stackSize : h.stackSize = c.memory.stackSize
  hartId : h.hartId = c.identity.hartId
  reachable : AddressSpace.Reachable 0 h.memory
  loadAlignment : h.memory.loadAlignment = Nat.nextPowerOfTwo c.memory.loadAlignment.toNat

theorem configured_ofConfig (c : Config) : Configured c (ofConfig c) :=
  ⟨rfl, rfl, rfl, .empty _ _, rfl⟩

/-- A hart stays configured whatever its memory is called for, be it a load or anything else. -/
theorem Configured.call (h : Configured c h') {call : AddressSpace.Call} (hcall : call.Brings 0) :
    Configured c { h' with memory := h'.memory.after call } :=
  ⟨h.privileged, h.stackSize, h.hartId, .call h.reachable hcall,
    (AddressSpace.loadAlignment_after _ _).trans h.loadAlignment⟩

theorem Configured.launch (h : Configured c h') (entry : Option Word) :
    Configured c (h'.launch entry).2 := by
  have hreach := reachable_launch h.reachable entry
  obtain ⟨regs, memory, pc, hlaunch, hmemory⟩ := launch_frame h' entry
  rw [hlaunch] at hreach ⊢
  refine ⟨h.privileged, h.stackSize, h.hartId, hreach, ?_⟩
  change memory.loadAlignment = _
  rcases hmemory with rfl | rfl
  · exact h.loadAlignment
  · exact (AddressSpace.loadAlignment_after _ _).trans h.loadAlignment

/-- The stack pointer is the end of the stack: of the first section of that name, which has the
given size, may be written and keeps off all others. -/
structure OnStack (size : Word) (h : Hart) (s : Section) : Prop where
  named : h.memory.sectionNamed? stackName = some s
  pointer : (h.regs.peek Register.stackPointer).toNat = s.endAddress
  length : s.size = size.toNat
  writable : s.permissions.readOnly = false
  apart : ∃ front back, h.memory.sections = front ++ s :: back ∧
    ∀ t ∈ front ++ back, t.overlaps s = false

/-- What becomes of the memory and the stack pointer in a launch. -/
inductive Bootstraps (c : Config) (h h' : Hart) : Prop
  | kept (s : Section) : h.memory.sectionNamed? stackName = some s → h'.memory = h.memory →
    h'.regs.peek Register.stackPointer = h.regs.peek Register.stackPointer → Bootstraps c h h'
  | allocated (front : List Section) (s : Section) (back : List Section) :
    h.memory.sectionNamed? stackName = none → h.memory.sections = front ++ back →
    h'.memory = { h.memory with sections := front ++ s :: back } →
    AddressSpace.Blank stackName c.memory.stackSize.toNat .data s →
    OnStack c.memory.stackSize h' s →
    ((s.base.toNat = h.memory.loadAlignment → 16 ≤ h.memory.loadAlignment) →
      16 ∣ (h'.regs.peek Register.stackPointer).toNat) → Bootstraps c h h'

/-- A launch of an unprivileged hart that succeeds makes sure of a stack and then fills the first
argument register. -/
theorem launch_eq_ok (hp : h.privileged = false) (hok : (h.launch entry).1 = .ok ()) :
    ∃ pc h', ({ h with pc } : Hart).withStack = .ok h' ∧
      (h.launch entry).2 = { h' with regs := h'.regs.write Register.argument0 h'.hartId } := by
  unfold launch at hok ⊢
  dsimp only at hok ⊢
  rw [if_neg (Bool.eq_false_iff.1 hp)] at hok ⊢
  cases hstack : ({ h with pc := (entry.or h.memory.entryPoint?).getD 0 } : Hart).withStack with
  | error e =>
    rw [hstack] at hok
    cases hok
  | ok h' => exact ⟨_, h', hstack, rfl⟩

/-- The first section of a name that no other section has. -/
theorem sectionNamed?_of_append {m : AddressSpace} {front back : List Section} {name : String}
    (hnone : m.sectionNamed? name = none) (hsplit : m.sections = front ++ back)
    (hname : s.name = name) :
    ({ m with sections := front ++ s :: back } : AddressSpace).sectionNamed? name = some s := by
  rw [AddressSpace.sectionNamed?, hsplit, List.find?_append, Option.or_eq_none_iff] at hnone
  rw [AddressSpace.sectionNamed?, List.find?_append, hnone.1, Option.none_or, List.find?_cons,
    beq_iff_eq.2 hname]

/-- A stack that is allocated is what the stack pointer is set to the end of. -/
theorem bootstraps_withStack (hvalid : c.validate = .ok ()) (hsize : 0 < c.memory.stackSize)
    (h : Configured c h') {k : Hart} (hstack : h'.withStack = .ok k) : Bootstraps c h' k := by
  rcases withStack_eq_ok hstack with ⟨hkeep, rfl⟩ | ⟨hnone, base, memory, hallocate, rfl⟩
  · have hsome : (k.memory.sectionNamed? stackName).isSome = true := by
      rcases hkeep with hzero | hsome
      · rw [← h.stackSize, hzero] at hsize
        exact absurd hsize (by decide)
      · exact hsome
    obtain ⟨s, hs⟩ := Option.isSome_iff_exists.1 hsome
    exact .kept s hs rfl rfl
  · rw [Option.isSome_eq_false_iff, Option.isNone_iff_eq_none] at hnone
    have hallocates :=
      AddressSpace.allocates_allocate h.reachable.sorted stackName h'.stackSize.toNat .data
    rw [hallocate, h.stackSize] at hallocates
    cases hallocates with
    | @placed front s back hbase hend hsplit hblank hapart =>
      have hpointer : (s.base + c.memory.stackSize).toNat = s.endAddress := by
        have hbound : AddressSpace.mappableEnd = 0x7FFFFFFF := rfl
        rw [Section.endAddress, hblank.length]
        exact BitVec.toNat_add_of_lt (by omega)
      have hpeek (regs : RegisterFile) :
          (regs.write Register.stackPointer (s.base + h'.stackSize)).peek Register.stackPointer =
            s.base + c.memory.stackSize := by
        rw [RegisterFile.peek_write, if_pos (by decide), h.stackSize]
      refine .allocated front s back hnone hsplit rfl hblank ⟨?_, ?_, hblank.length, ?_, ?_⟩ ?_
      · exact sectionNamed?_of_append hnone hsplit hblank.called
      · rw [hpeek, hpointer]
      · rw [hblank.allows]
        rfl
      · exact ⟨front, back, rfl, hsplit ▸ hapart⟩
      · intro haligned
        rw [hpeek, hpointer, Section.endAddress, hblank.length]
        refine Nat.dvd_add ?_ (Config.dvd_stackSize hvalid)
        rcases AddressSpace.firstGap_eq_or_dvd c.memory.stackSize.toNat h'.memory.loadAlignment
          h'.memory.sections with hstart | hdvd
        · rw [← hbase] at hstart
          rw [hstart]
          exact h.reachable.dvd_loadAlignment (haligned hstart)
        · rw [hbase]
          exact hdvd

/-- The first argument register is apart from the stack pointer. -/
theorem Bootstraps.fillArgument {pc v : Word} (hb : Bootstraps c ({ h with pc } : Hart) h') :
    Bootstraps c h { h' with regs := h'.regs.write Register.argument0 v } := by
  have hpeek : (h'.regs.write Register.argument0 v).peek Register.stackPointer =
      h'.regs.peek Register.stackPointer := by
    rw [RegisterFile.peek_write, if_neg (by decide)]
  cases hb with
  | kept s hs hmemory hpointer => exact .kept s hs hmemory (hpeek.trans hpointer)
  | allocated front s back hnone hsplit hmemory hblank hstack haligned =>
    obtain ⟨hnamed, hpointer, hlength, hwritable, hapart⟩ := hstack
    rw [← hpeek] at hpointer haligned
    exact .allocated front s back hnone hsplit hmemory hblank
      ⟨hnamed, hpointer, hlength, hwritable, hapart⟩ haligned

/-- A launch that succeeds, of an unprivileged hart whose settings were accepted and give it a
stack. -/
structure Launches (c : Config) (h : Hart) (entry : Option Word) : Prop where
  valid : c.validate = .ok ()
  sized : 0 < c.memory.stackSize
  unprivileged : c.general.privileged = false
  configured : Configured c h
  succeeds : (h.launch entry).1 = .ok ()

/-- **Stack bootstrap.** A launch that succeeds gives an unprivileged hart without a stack one, with
the stack pointer at its end, which is a multiple of sixteen unless the stack begins at a smaller
load alignment. A hart with a stack keeps it, and its stack pointer. Either finds its number in the
first argument register. -/
theorem launch_bootstraps (hl : Launches c h entry) :
    (h.launch entry).2.regs.peek Register.argument0 = c.identity.hartId ∧
      Bootstraps c h (h.launch entry).2 := by
  obtain ⟨hvalid, hsize, hunprivileged, hc, hok⟩ := hl
  obtain ⟨pc, h', hstack, hlaunch⟩ := launch_eq_ok (hc.privileged.trans hunprivileged) hok
  have hc' : Configured c ({ h with pc } : Hart) :=
    ⟨hc.privileged, hc.stackSize, hc.hartId, hc.reachable, hc.loadAlignment⟩
  have hid : h'.hartId = c.identity.hartId := by
    rcases withStack_eq_ok hstack with ⟨-, rfl⟩ | ⟨-, base, memory, -, rfl⟩
    · exact hc.hartId
    · exact hc.hartId
  rw [hlaunch]
  constructor
  · rw [RegisterFile.peek_write, if_pos (by decide), hid]
  · exact (bootstraps_withStack hvalid hsize hc' hstack).fillArgument

/-- A hart of default load alignment with one program in its memory. -/
theorem configured_loaded (hempty : (ofConfig c).memory = {}) {p : Program} (hp : p.Built) :
    Configured c { ofConfig c with memory := ({} : AddressSpace).after (.load p none) } := by
  have hbrings : (AddressSpace.Call.load p none).Brings 0 := ⟨hp, fun _ _ => Nat.zero_le _⟩
  have hload := (configured_ofConfig c).call hbrings
  rw [hempty] at hload
  exact hload

/-- A hart of default settings with a library in its memory. -/
def withLibrary : Hart := { ofConfig {} with memory := AddressSpace.withLibrary }

/-- The stack lies behind the library. -/
theorem launch_bootstraps_behind_library :
    Launches {} withLibrary none ∧ Bootstraps {} withLibrary (withLibrary.launch none).2 ∧
      withLibrary.memory.sectionNamed? stackName = none ∧
      (withLibrary.launch none).2.regs.peek Register.stackPointer = 0x81010 := by
  have hlaunches : Launches {} withLibrary none :=
    ⟨by decide, by decide, rfl,
      configured_loaded (c := {}) AddressSpace.empty_default (AddressSpace.built_exporting ..),
      rfl⟩
  exact ⟨hlaunches, (launch_bootstraps hlaunches).2, rfl, by decide⟩

/-- The hart is on a stack that was made for it and is aligned, which not every launch leads to. -/
def Stands (c : Config) (h : Hart) : Prop :=
  (∃ s, OnStack c.memory.stackSize h s) ∧
    16 ∣ (h.regs.peek Register.stackPointer).toNat ∧
    h.regs.peek Register.argument0 = c.identity.hartId

/-- A program that brings a section of the name of the stack along. -/
def ownStack : Program :=
  { name := "p", base := some 0x1000,
    sections := [{ Section.zeroed ".text" 0x1000 16 .code with owner := "p" },
      { Section.zeroed ".stack" 0x2000 64 .data with owner := "p" }] }

theorem built_ownStack : ownStack.Built := by
  let empty : Program := { name := "p", base := some 0x1000 }
  let text : Section := .zeroed ".text" 0x1000 16 .code
  let one : Program := { empty with sections := [{ text with owner := "p" }] }
  have hone : empty.addSection text = .ok one := rfl
  have htwo : one.addSection (.zeroed ".stack" 0x2000 64 .data) = .ok ownStack := rfl
  exact .addSection (.addSection (.fixed "p" 0x1000) hone) htwo

/-- Settings with a small stack. -/
def smallStack : Config := { memory := { stackSize := 64 } }

/-- A hart with the program that has a stack of its own. -/
def withOwnStack : Hart :=
  { ofConfig smallStack with memory := ({} : AddressSpace).after (.load ownStack none) }

theorem launches_withOwnStack : Launches smallStack withOwnStack none :=
  ⟨by decide, by decide, rfl,
    configured_loaded (c := smallStack) AddressSpace.empty_default built_ownStack, rfl⟩

/-- Settings that begin the stack of an empty space at four. -/
def lowStack : Config := { memory := { stackSize := 64, loadAlignment := 4 } }

/-- A hart of these settings without a program. -/
def withLowStack : Hart := { ofConfig lowStack with memory := { loadAlignment := 4 } }

theorem launches_withLowStack : Launches lowStack withLowStack none := by
  have hpower : Nat.nextPowerOfTwo 4 = 4 := by cbv
  have hempty : AddressSpace.empty false 4 = { loadAlignment := 4 } := by
    rw [AddressSpace.empty, hpower]
  have hreach : AddressSpace.Reachable 0 { loadAlignment := 4 } := hempty ▸ .empty false 4
  exact ⟨by decide, by decide, rfl, ⟨rfl, rfl, rfl, hreach, hpower.symm⟩, rfl⟩

/-- A hart with a stack of its own program does not stand on it, and a stack that begins at a load
alignment below sixteen does not end at a multiple of sixteen. -/
theorem not_launch_always_stands :
    (¬ ∀ (c : Config) (h : Hart) (entry : Option Word), Launches c h entry →
      Stands c (h.launch entry).2) ∧
    ¬ ∀ (c : Config) (h : Hart) (entry : Option Word), Launches c h entry →
      h.memory.sectionNamed? stackName = none → Stands c (h.launch entry).2 := by
  constructor
  · intro hall
    obtain ⟨⟨s, hs⟩, -, -⟩ := hall smallStack withOwnStack none launches_withOwnStack
    have hend := hs.pointer
    have hzero : (withOwnStack.launch none).2.regs.peek Register.stackPointer = 0 := by decide
    rw [hzero, Section.endAddress, hs.length] at hend
    change 0 = s.base.toNat + 64 at hend
    omega
  · intro hall
    have haligned := (hall lowStack withLowStack none launches_withLowStack rfl).2.1
    have hend : (withLowStack.launch none).2.regs.peek Register.stackPointer = 68 := by decide
    rw [hend] at haligned
    exact absurd haligned (by decide)

end Hart
end Riscv32
