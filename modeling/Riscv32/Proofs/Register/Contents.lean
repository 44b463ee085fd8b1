import Mathlib.Algebra.Group.Nat.Defs
import Riscv32.Proofs.Instruction.Operand
import Riscv32.Register.File

/-!
# What registers hold

However a register file is accessed, by index or by name, a register holds what was written to it
last. All names of an integer register and its index lead to the same word. Register 0 and indices
outside the file take no writes. A name that is no integer register is a register of its own in
unlimited mode, and otherwise it is refused. A floating-point register holds the low bits of the
pattern that was written last, as many as the registers are wide.

## Main definitions

* `RegisterFile.Access`, `RegisterFile.after` — the accesses and the file that they leave.
* `RegisterFile.lastInteger`, `RegisterFile.lastFloat`, `RegisterFile.lastSymbolic` — what a row of
  accesses wrote last.
* `RegisterFile.Answers` — what a file answers after a row of accesses.

## Main statements

* `RegisterFile.Effect.peek_eq`, `RegisterFile.Effect.readBits_eq`,
  `RegisterFile.Effect.symbolic_eq`, what one access does to each register.
* `RegisterFile.answers_last_written`, what a file answers after any row of accesses.
-/
namespace Riscv32

theorem IntegerRegisters.writable_eq_true_iff {i : Nat} :
    writable i = true ↔ 0 < i ∧ i < Register.count := by
  simp [writable]

/-- Every register of the file but register 0 can be written. -/
theorem IntegerRegisters.writable_of_lt {i : Nat} (h : i < Register.count) :
    writable i = decide (i ≠ Register.zero) := by
  rw [writable, decide_eq_true h, Bool.and_true]
  exact decide_eq_decide.2 Nat.pos_iff_ne_zero

theorem IntegerRegisters.read_of_not_writable (r : IntegerRegisters) {i : Nat}
    (h : ¬ writable i = true) : r.read i = 0 := by
  rw [writable_eq_true_iff, not_and, Nat.not_lt] at h
  by_cases hi : i = 0
  · simp [hi]
  · have hge := h (Nat.pos_of_ne_zero hi)
    simp [read, hi, hge]

theorem FloatRegisters.readBits_of_le (r : FloatRegisters) {i : Nat} (h : Register.count ≤ i) :
    r.readBits i = 0 := by
  simp [readBits, h]

/-- A register keeps the low bits of a pattern, as many as it is wide. -/
theorem FloatRegisters.toNat_truncate (p : Precision) (bits : BitVec 64) :
    (truncate p bits).toNat = bits.toNat % 2 ^ p.width := by
  have hbits := bits.isLt
  rw [truncate, BitVec.toNat_setWidth, BitVec.toNat_setWidth]
  exact Nat.mod_eq_of_lt (Nat.lt_of_le_of_lt (Nat.mod_le _ _) hbits)

namespace RegisterFile

/-! ## Accesses -/

/-- An access to a register file. -/
inductive Access
  | read (i : Nat)
  | get (name : String)
  | getFloat (name : String)
  | write (i : Nat) (v : Word)
  | set (name : String) (v : Word)
  | writeFloat (i : Nat) (x : FloatValue)
  | writeFloatBits (i : Nat) (bits : BitVec 64)
  | setFloat (name : String) (x : FloatValue)

/-- The file that an access leaves. An access that is refused leaves the file alone. -/
def after (f : RegisterFile) : Access → RegisterFile
  | .read i => (f.read i).2
  | .get name => ((f.get name).toOption.map Prod.snd).getD f
  | .getFloat _ => f
  | .write i v => f.write i v
  | .set name v => ((f.set name v).toOption.map Prod.snd).getD f
  | .writeFloat i x => { f with floats := f.floats.write x.precision i x.bits }
  | .writeFloatBits i bits => { f with floats := f.floats.writeBits i bits }
  | .setFloat name x => (f.setFloat name x).toOption.getD f

/-- The file that a row of accesses leaves. -/
def afterAll (f : RegisterFile) (accesses : List Access) : RegisterFile := accesses.foldl after f

namespace Access

/-- The word that an access writes to an integer register, by its index or one of its names. -/
def integer? (i : Nat) : Access → Option Word
  | .write j v => if j = i then some v else none
  | .set name v => if Register.integerIndex? name = some i then some v else none
  | .read _ | .get _ | .getFloat _ | .writeFloat _ _ | .writeFloatBits _ _ | .setFloat _ _ => none

/-- The word that an access writes to the register that a name has of its own. -/
def symbolic? (name : String) : Access → Option Word
  | .set other v => if other = name then some v else none
  | .read _ | .get _ | .getFloat _ | .write _ _ | .writeFloat _ _ | .writeFloatBits _ _
  | .setFloat _ _ => none

/-- The pattern that an access writes to a floating-point register, by its index or one of its
names. A single-precision number is extended with zeros. -/
def float? (i : Nat) : Access → Option (BitVec 64)
  | .writeFloat j x => if j = i then some (x.bits.setWidth 64) else none
  | .writeFloatBits j bits => if j = i then some bits else none
  | .setFloat name x =>
    if Register.floatIndex? name = some i then some (x.bits.setWidth 64) else none
  | .read _ | .get _ | .getFloat _ | .write _ _ | .set _ _ => none

end Access

/-- The word that was written last to an integer register, zero if none was. -/
def lastInteger (accesses : List Access) (i : Nat) : Word :=
  (accesses.reverse.findSome? (·.integer? i)).getD 0

/-- The pattern that was written last to a floating-point register, zero if none was. -/
def lastFloat (accesses : List Access) (i : Nat) : BitVec 64 :=
  (accesses.reverse.findSome? (·.float? i)).getD 0

/-- The word that was written last to the register of a name of its own, zero if none was. -/
def lastSymbolic (accesses : List Access) (name : String) : Word :=
  (accesses.reverse.findSome? (·.symbolic? name)).getD 0

variable {f : RegisterFile} {i : Nat} {name : String}

/-! ## Names -/

theorem get_of_some (h : Register.integerIndex? name = some i) : f.get name = .ok (f.read i) := by
  rw [get, h]

theorem set_of_some (h : Register.integerIndex? name = some i) (v : Word) :
    f.set name v = .ok (IntegerRegisters.writable i, f.write i v) := by
  rw [set, h]

theorem get_of_none (h : Register.integerIndex? name = none) : f.get name =
    if f.unlimited then .ok (f.symbolic.getD name 0, f) else .error (.unknown name) := by
  rw [get, h]

theorem set_of_none (h : Register.integerIndex? name = none) (v : Word) : f.set name v =
    if f.unlimited then .ok (true, { f with symbolic := f.symbolic.insert name v })
    else .error (.unknown name) := by
  rw [set, h]

theorem setFloat_of_some (h : Register.floatIndex? name = some i) (x : FloatValue) :
    f.setFloat name x = .ok { f with floats := f.floats.write x.precision i x.bits } := by
  simp [setFloat, floatIndex, h, bind, Except.bind, pure, Except.pure]

theorem setFloat_of_none (h : Register.floatIndex? name = none) (x : FloatValue) :
    f.setFloat name x = .error (.unknown name) := by
  simp [setFloat, floatIndex, h, bind, Except.bind]

theorem getFloat_of_some (h : Register.floatIndex? name = some i) :
    f.getFloat name = .ok ⟨f.floats.precision, f.floats.read f.floats.precision i⟩ := by
  simp [getFloat, floatIndex, h, bind, Except.bind, pure, Except.pure]

theorem getFloat_of_none (h : Register.floatIndex? name = none) :
    f.getFloat name = .error (.unknown name) := by
  simp [getFloat, floatIndex, h, bind, Except.bind]

/-! ## One access -/

@[simp] theorem unlimited_write (f : RegisterFile) (i : Nat) (v : Word) :
    (f.write i v).unlimited = f.unlimited := by
  simp only [write]
  split <;> rfl

@[simp] theorem floats_write (f : RegisterFile) (i : Nat) (v : Word) :
    (f.write i v).floats = f.floats := by
  simp only [write]
  split <;> rfl

@[simp] theorem symbolic_write (f : RegisterFile) (i : Nat) (v : Word) :
    (f.write i v).symbolic = f.symbolic := by
  simp only [write]
  split <;> rfl

/-- What an access can make of a file: it writes one register, in the way that its words and
patterns say, or none. -/
inductive Effect (f : RegisterFile) (a : Access) : RegisterFile → Prop
  | integer (i : Nat) (v : Word) (hinteger : ∀ j, a.integer? j = if i = j then some v else none)
    (hfloat : ∀ j, a.float? j = none)
    (hsymbolic : ∀ name, Register.integerIndex? name = none → a.symbolic? name = none) :
    Effect f a (f.write i v)
  | float (i : Nat) (bits : BitVec 64) (hinteger : ∀ j, a.integer? j = none)
    (hfloat : ∀ j, a.float? j = if i = j then some bits else none)
    (hsymbolic : ∀ name, a.symbolic? name = none) :
    Effect f a { f with floats := f.floats.writeBits i bits }
  | symbolic (name : String) (v : Word) (hunlimited : f.unlimited = true)
    (hinteger : ∀ j, a.integer? j = none) (hfloat : ∀ j, a.float? j = none)
    (hsymbolic : ∀ other, a.symbolic? other = if name = other then some v else none) :
    Effect f a { f with symbolic := f.symbolic.insert name v }
  | unwritten (last : Option Nat) (hinteger : ∀ j, a.integer? j = none)
    (hfloat : ∀ j, a.float? j = none)
    (hsymbolic : f.unlimited = true → ∀ name, a.symbolic? name = none) :
    Effect f a { f with lastRead := last }

theorem effect_after (f : RegisterFile) (a : Access) : Effect f a (f.after a) := by
  cases a with
  | read i => exact .unwritten (some i) (fun _ => rfl) (fun _ => rfl) (fun _ _ => rfl)
  | getFloat name => exact .unwritten f.lastRead (fun _ => rfl) (fun _ => rfl) (fun _ _ => rfl)
  | write i v => exact .integer i v (fun _ => rfl) (fun _ => rfl) (fun _ _ => rfl)
  | writeFloat i x =>
    exact .float i (x.bits.setWidth 64) (fun _ => rfl) (fun _ => rfl) (fun _ => rfl)
  | writeFloatBits i bits => exact .float i bits (fun _ => rfl) (fun _ => rfl) (fun _ => rfl)
  | get name =>
    cases h : Register.integerIndex? name with
    | some i =>
      rw [after, get_of_some h]
      exact .unwritten (some i) (fun _ => rfl) (fun _ => rfl) (fun _ _ => rfl)
    | none =>
      have hsame : f.after (.get name) = f := by
        rw [after, get_of_none h]
        split <;> rfl
      rw [hsame]
      exact .unwritten f.lastRead (fun _ => rfl) (fun _ => rfl) (fun _ _ => rfl)
  | set name v =>
    cases h : Register.integerIndex? name with
    | some i =>
      rw [after, set_of_some h]
      refine .integer i v (fun j => ?_) (fun _ => rfl) (fun other hother => ?_)
      · simp only [Access.integer?, h, Option.some.injEq]
      · refine if_neg ?_
        rintro rfl
        rw [h] at hother
        cases hother
    | none =>
      have hinteger : ∀ j, Access.integer? j (.set name v) = none := by
        intro j
        simp [Access.integer?, h]
      rw [after, set_of_none h]
      by_cases hunlimited : f.unlimited = true
      · rw [if_pos hunlimited]
        exact .symbolic name v hunlimited hinteger (fun _ => rfl) (fun _ => rfl)
      · rw [if_neg hunlimited]
        exact .unwritten f.lastRead hinteger (fun _ => rfl) (fun hu => absurd hu hunlimited)
  | setFloat name x =>
    cases h : Register.floatIndex? name with
    | some i =>
      rw [after, setFloat_of_some h]
      refine .float i (x.bits.setWidth 64) (fun _ => rfl) (fun j => ?_) (fun _ => rfl)
      simp only [Access.float?, h, Option.some.injEq]
    | none =>
      rw [after, setFloat_of_none h]
      refine .unwritten f.lastRead (fun _ => rfl) (fun j => ?_) (fun _ _ => rfl)
      simp [Access.float?, h]

namespace Effect

variable {k : RegisterFile} {a : Access}

/-- No access changes the settings of a file. -/
theorem settings (h : Effect f a k) :
    k.unlimited = f.unlimited ∧ k.floats.precision = f.floats.precision := by
  cases h with
  | integer i v => simp
  | float i bits => exact ⟨rfl, rfl⟩
  | symbolic name v => exact ⟨rfl, rfl⟩
  | unwritten last => exact ⟨rfl, rfl⟩

/-- An integer register holds what was written to it, or else what it held before. -/
theorem peek_eq (h : Effect f a k) (hi : IntegerRegisters.writable i = true) :
    k.peek i = (a.integer? i).getD (f.peek i) := by
  cases h with
  | integer j v hinteger =>
    rw [peek_write, hinteger]
    by_cases hj : j = i
    · subst hj
      simp [hi]
    · simp [hj]
  | float j bits hinteger => rw [hinteger]; rfl
  | symbolic name v _ hinteger => rw [hinteger]; rfl
  | unwritten last hinteger => rw [hinteger]; rfl

/-- A floating-point register holds what was written to it, cut to its width, or else what it held
before. -/
theorem readBits_eq (h : Effect f a k) (hi : i < Register.count) :
    k.floats.readBits i =
      ((a.float? i).map (FloatRegisters.truncate f.floats.precision)).getD
        (f.floats.readBits i) := by
  cases h with
  | integer j v _ hfloat => rw [hfloat, floats_write]; rfl
  | float j bits _ hfloat =>
    rw [FloatRegisters.readBits_writeBits, hfloat]
    by_cases hj : j = i
    · subst hj
      simp [hi]
    · simp [hj]
  | symbolic name v _ _ hfloat => rw [hfloat]; rfl
  | unwritten last _ hfloat => rw [hfloat]; rfl

/-- In unlimited mode the register that a name has of its own holds what was written to it, or else
what it held before. -/
theorem symbolic_eq (h : Effect f a k) (hunlimited : f.unlimited = true)
    (hname : Register.integerIndex? name = none) :
    k.symbolic.getD name 0 = (a.symbolic? name).getD (f.symbolic.getD name 0) := by
  cases h with
  | integer j v _ _ hsymbolic => rw [hsymbolic name hname, symbolic_write]; rfl
  | float j bits _ _ hsymbolic => rw [hsymbolic]; rfl
  | symbolic other v _ _ _ hsymbolic =>
    rw [Std.TreeMap.getD_insert, hsymbolic]
    by_cases hother : other = name
    · simp [hother]
    · simp [hother]
  | unwritten last _ _ hsymbolic => rw [hsymbolic hunlimited]; rfl

/-- An access that writes nothing to a register leaves it alone. -/
theorem frame (h : Effect f a k) :
    (∀ i, a.integer? i = none → k.peek i = f.peek i) ∧
      (∀ i, a.float? i = none → k.floats.readBits i = f.floats.readBits i) ∧
      ∀ name, a.symbolic? name = none → k.symbolic.getD name 0 = f.symbolic.getD name 0 := by
  refine ⟨fun i ha => ?_, fun i ha => ?_, fun name ha => ?_⟩
  · by_cases hi : IntegerRegisters.writable i = true
    · rw [h.peek_eq hi, ha, Option.getD_none]
    · rw [peek, peek, IntegerRegisters.read_of_not_writable _ hi,
        IntegerRegisters.read_of_not_writable _ hi]
  · by_cases hi : i < Register.count
    · rw [h.readBits_eq hi, ha, Option.map_none, Option.getD_none]
    · rw [FloatRegisters.readBits_of_le _ (Nat.not_lt.1 hi),
        FloatRegisters.readBits_of_le _ (Nat.not_lt.1 hi)]
  · cases h with
    | integer j v => rw [symbolic_write]
    | float j bits => rfl
    | symbolic other v _ _ _ hsymbolic =>
      have hother : other ≠ name := by
        rintro rfl
        rw [hsymbolic, if_pos rfl] at ha
        cases ha
      simp [Std.TreeMap.getD_insert, hother]
    | unwritten last => rfl

end Effect

/-! ## A row of accesses -/

/-- A file holds what the accesses of a log wrote last. The newest access stands first. -/
structure Holds (p : Precision) (unlimited : Bool) (log : List Access) (f : RegisterFile) :
    Prop where
  precision : f.floats.precision = p
  mode : f.unlimited = unlimited
  integer : ∀ i, IntegerRegisters.writable i = true →
    f.peek i = (log.findSome? (·.integer? i)).getD 0
  float : ∀ i, i < Register.count →
    f.floats.readBits i = FloatRegisters.truncate p ((log.findSome? (·.float? i)).getD 0)
  symbolic : unlimited = true → ∀ name, Register.integerIndex? name = none →
    f.symbolic.getD name 0 = (log.findSome? (·.symbolic? name)).getD 0

variable {p : Precision} {unlimited : Bool} {log : List Access}

/-- At first all registers hold zero. -/
theorem holds_ofPrecision (p : Precision) (unlimited : Bool) :
    Holds p unlimited [] (ofPrecision p unlimited) where
  precision := rfl
  mode := rfl
  integer i hi := by
    have hlt := (IntegerRegisters.writable_eq_true_iff.1 hi).2
    simp [ofPrecision, peek, IntegerRegisters.read, hlt]
  float i hi := by simp [ofPrecision, FloatRegisters.readBits, FloatRegisters.truncate, hi]
  symbolic _ name _ := by simp [ofPrecision]

theorem Holds.effect {a : Access} {k : RegisterFile} (hf : Holds p unlimited log f)
    (h : Effect f a k) : Holds p unlimited (a :: log) k where
  precision := h.settings.2.trans hf.precision
  mode := h.settings.1.trans hf.mode
  integer i hi := by
    rw [h.peek_eq hi, List.findSome?_cons]
    cases a.integer? i with
    | some v => rfl
    | none => exact hf.integer i hi
  float i hi := by
    rw [h.readBits_eq hi, List.findSome?_cons, hf.precision]
    cases a.float? i with
    | some bits => rfl
    | none => exact hf.float i hi
  symbolic hunlimited name hname := by
    rw [h.symbolic_eq (hf.mode.trans hunlimited) hname, List.findSome?_cons]
    cases a.symbolic? name with
    | some v => rfl
    | none => exact hf.symbolic hunlimited name hname

theorem Holds.afterAll (hf : Holds p unlimited log f) (accesses : List Access) :
    Holds p unlimited (accesses.reverse ++ log) (f.afterAll accesses) := by
  induction accesses generalizing f log with
  | nil => exact hf
  | cons a rest ih =>
    rw [List.reverse_cons, List.append_assoc]
    exact ih (hf.effect (effect_after f a))

/-- What a file answers after a row of accesses, from the first to the last: as a map from names
and indices to what was written last. -/
structure Answers (p : Precision) (unlimited : Bool) (accesses : List Access) (f : RegisterFile) :
    Prop where
  /-- By index an integer register of the file other than register 0 is what was written last. -/
  read : ∀ i, f.read i =
    (if 0 < i ∧ i < Register.count then lastInteger accesses i else 0, f.markRead i)
  /-- Each name of an integer register reads what its index does. -/
  get : ∀ name i, Register.integerIndex? name = some i → f.get name = .ok (f.read i)
  /-- A write by a name is a write by its index, and is kept unless it is to register 0. -/
  set : ∀ name i v, Register.integerIndex? name = some i →
    f.set name v = .ok (decide (i ≠ Register.zero), f.write i v)
  /-- Writes to register 0 and outside the file are discarded. -/
  discards : ∀ i v, ¬ (0 < i ∧ i < Register.count) → f.write i v = f
  /-- In unlimited mode any other name is a register of its own. -/
  symbolic : unlimited = true → ∀ name, Register.integerIndex? name = none →
    f.get name = .ok (lastSymbolic accesses name, f) ∧ ∀ v, ∃ k, f.set name v = .ok (true, k)
  /-- Otherwise any other name is refused. -/
  unknown : unlimited = false → ∀ name, Register.integerIndex? name = none →
    f.get name = .error (.unknown name) ∧ ∀ v, f.set name v = .error (.unknown name)
  /-- A floating-point register holds the low bits of what was written last. -/
  readBits : ∀ i, (f.floats.readBits i).toNat =
    if i < Register.count then (lastFloat accesses i).toNat % 2 ^ p.width else 0
  /-- Each name of a floating-point register reads what its index does. -/
  getFloat : ∀ name i, Register.floatIndex? name = some i →
    f.getFloat name = .ok ⟨p, (f.floats.readBits i).setWidth p.width⟩
  /-- Any other name is refused for a floating-point register. -/
  unknownFloat : ∀ name, Register.floatIndex? name = none →
    f.getFloat name = .error (.unknown name) ∧ ∀ x, f.setFloat name x = .error (.unknown name)
  /-- A further access leaves every register alone that it does not write. -/
  frame : ∀ a, (∀ i, a.integer? i = none → (f.after a).peek i = f.peek i) ∧
    (∀ i, a.float? i = none → (f.after a).floats.readBits i = f.floats.readBits i) ∧
    ∀ name, a.symbolic? name = none →
      (f.after a).symbolic.getD name 0 = f.symbolic.getD name 0

theorem write_of_not_writable (h : ¬ IntegerRegisters.writable i = true) (v : Word) :
    f.write i v = f := if_neg h

/-- **A register file is a map.** Whatever its width and its mode, and after any row of reads and
writes by index and by name, each name and each index of an integer register reads the word that was
written last through any of them, register 0 reads zero and takes no write, any other name is a
register of its own or is refused, a floating-point register holds the low bits of the pattern that
was written last, and no write changes another register. -/
theorem answers_last_written (p : Precision) (unlimited : Bool) (accesses : List Access) :
    Answers p unlimited accesses ((ofPrecision p unlimited).afterAll accesses) := by
  have hholds := (holds_ofPrecision p unlimited).afterAll accesses
  rw [List.append_nil] at hholds
  generalize (ofPrecision p unlimited).afterAll accesses = f at hholds
  have hwritable : ∀ i, IntegerRegisters.writable i = true ↔ 0 < i ∧ i < Register.count :=
    fun _ => IntegerRegisters.writable_eq_true_iff
  constructor
  case read =>
    intro i
    rw [RegisterFile.read]
    by_cases hi : IntegerRegisters.writable i = true
    · rw [if_pos ((hwritable i).1 hi), hholds.integer i hi, lastInteger]
    · rw [if_neg fun h => hi ((hwritable i).2 h), peek, IntegerRegisters.read_of_not_writable _ hi]
  case get => exact fun name i h => get_of_some h
  case set =>
    intro name i v h
    rw [set_of_some h, IntegerRegisters.writable_of_lt (Register.integerIndex?_lt h)]
  case discards => exact fun i v hi => write_of_not_writable (fun h => hi ((hwritable i).1 h)) v
  case symbolic =>
    intro hunlimited name h
    have hmode := hholds.mode.trans hunlimited
    refine ⟨?_, fun v => ⟨_, by rw [set_of_none h, if_pos hmode]⟩⟩
    rw [get_of_none h, if_pos hmode, hholds.symbolic hunlimited name h, lastSymbolic]
  case unknown =>
    intro hunlimited name h
    have hmode := hholds.mode.trans hunlimited
    simp [get_of_none h, set_of_none h, hmode]
  case readBits =>
    intro i
    by_cases hi : i < Register.count
    · rw [if_pos hi, hholds.float i hi, FloatRegisters.toNat_truncate, lastFloat]
    · rw [if_neg hi, FloatRegisters.readBits_of_le _ (Nat.not_lt.1 hi)]
      rfl
  case getFloat =>
    intro name i h
    rw [getFloat_of_some h, hholds.precision]
    rfl
  case unknownFloat => exact fun name h => ⟨getFloat_of_none h, setFloat_of_none h⟩
  case frame => exact fun a => (effect_after f a).frame

/-- Writes by several names of register 8 and to register 0, a double-precision number in registers
of single precision, and a name that is no register. -/
def aliasing : List Access :=
  [.set "fp" 7, .write 8 9, .set "s0" 11, .set "zero" 5, .set "counter" 3,
    .setFloat "fa0" ⟨.double, 0x400921FB54442D18⟩]

/-- All names of register 8 read the last word, register 0 stays zero, the number loses its upper
half, and the name is a register of its own in unlimited mode only. -/
theorem answers_of_aliasing :
    (∀ name ∈ ["fp", "s0", "x8"],
      ((ofPrecision .single true).afterAll aliasing).get name =
        .ok (11, ((ofPrecision .single true).afterAll aliasing).markRead 8)) ∧
      (((ofPrecision .single true).afterAll aliasing).read 0).1 = 0 ∧
      (((ofPrecision .single true).afterAll aliasing).floats.readBits 10).toNat = 0x54442D18 ∧
      ((ofPrecision .single true).afterAll aliasing).get "counter" =
        .ok (3, (ofPrecision .single true).afterAll aliasing) ∧
      ((ofPrecision .single false).afterAll aliasing).get "counter" =
        .error (.unknown "counter") := by
  have hopen := answers_last_written .single true aliasing
  have hstrict := answers_last_written .single false aliasing
  refine ⟨?_, ?_, ?_, ?_, ?_⟩
  · intro name hname
    have hindex : ∀ name ∈ ["fp", "s0", "x8"], Register.integerIndex? name = some 8 := by decide
    rw [hopen.get name 8 (hindex name hname), hopen.read]
    rfl
  · rw [hopen.read]
    rfl
  · rw [hopen.readBits]
    rfl
  · exact (hopen.symbolic rfl "counter" (by decide)).1
  · exact (hstrict.unknown rfl "counter" (by decide)).1

end RegisterFile
end Riscv32
