import Mathlib.Data.List.Nodup
import Riscv32.Proofs.Register.Contents
import Riscv32.Proofs.Text.Digit

/-!
# The names of registers

A name of an integer register is its name in the calling convention, `fp` for the frame pointer, or
`x` and the decimal numeral of its index. A name of a floating-point register is its name in the
calling convention or `f` and the numeral. No name has two registers, and every other string is
refused, unless it is the letter and a numeral behind a plus sign: such a string stands for the
register of the numeral, even with zeros in front. In unlimited mode each string that is refused is
the name of a register of its own.

## Main definitions

* `Register.IsIntegerName`, `Register.IsFloatName` — the names of a register.
* `Register.IsPlusName` — the strings with a plus sign that stand for a register.
* `RegisterFile.HasOwn` — a name has a register of its own.

## Main statements

* `Register.numbered?_eq_some_iff`, what is read behind a letter.
* `Register.integerIndex?_eq_some_iff` and `Register.floatIndex?_eq_some_iff`, what stands for a
  register.
* `Register.names_exact_iff`, names and registers, and what becomes of all other strings.
-/
namespace Riscv32

open Numeral

namespace Register

variable {name : String} {letter : Char} {i j : Nat}

/-! ## Names -/

/-- The letter of a kind of register and the decimal numeral of an index. -/
def IsNumberedName (letter : Char) (name : String) (i : Nat) : Prop :=
  i < count ∧ name.toList = letter :: (toString i).toList

/-- The letter of a kind of register, a plus sign, and digits of an index. -/
def IsPlusName (letter : Char) (name : String) (i : Nat) : Prop :=
  i < count ∧ ∃ digits, name.toList = letter :: '+' :: digits ∧ Denotes 10 digits i

/-- A name of an integer register. -/
def IsIntegerName (name : String) (i : Nat) : Prop :=
  integerNames[i]? = some name ∨ (name = "fp" ∧ i = framePointer) ∨ IsNumberedName 'x' name i

/-- A name of a floating-point register. -/
def IsFloatName (name : String) (i : Nat) : Prop :=
  floatNames[i]? = some name ∨ IsNumberedName 'f' name i

/-! ## Lists of names -/

theorem nodup_integerNames : integerNames.Nodup := by decide

theorem nodup_floatNames : floatNames.Nodup := by decide

/-- In a list without repetitions the position of a name is where it stands. -/
theorem position?_eq_some_iff {names : List String} (hnodup : names.Nodup) :
    position? names name = some i ↔ names[i]? = some name := by
  rw [position?, List.findIdx?_eq_some_iff_getElem, List.getElem?_eq_some_iff]
  constructor
  · rintro ⟨hi, hname, -⟩
    exact ⟨hi, eq_of_beq hname⟩
  · rintro ⟨hi, rfl⟩
    refine ⟨hi, beq_self_eq_true _, fun j hj heq => ?_⟩
    exact Nat.ne_of_lt hj ((List.Nodup.getElem_inj_iff hnodup).1 (eq_of_beq heq))

/-! ## Numbered names -/

theorem startsPlainly_iff {digits : List Char} : startsPlainly digits = true ↔
    digits ≠ [] ∧ (digits = ['0'] ∨ digits.head? ≠ some '0') := by
  match digits with
  | [] => simp [startsPlainly]
  | [c] => simp [startsPlainly, Classical.em]
  | c :: _ :: _ => simp [startsPlainly]

theorem toList_toString (i : Nat) : (toString i).toList = Nat.toDigits 10 i := Nat.toList_repr

theorem startsPlainly_toString : ∀ i < count, startsPlainly (toString i).toList = true := by decide

/-- Behind the letter stands the decimal numeral of the index, or a plus sign and any numeral of
it. -/
theorem numbered?_eq_some_iff : numbered? letter name = some i ↔
    IsNumberedName letter name i ∨ IsPlusName letter name i := by
  have hread {digits : List Char} (hi : i < count) (hname : name.toList = letter :: digits)
      (hplain : startsPlainly digits = true) (hdigits : unsigned? 10 digits = some i) :
      numbered? letter name = some i := by
    simp only [numbered?, hname, hplain, hdigits, and_self, if_true]
    exact Option.filter_eq_some_iff.2 ⟨rfl, decide_eq_true hi⟩
  constructor
  · intro h
    unfold numbered? at h
    split at h
    case h_1 => cases h
    case h_2 c digits hname =>
      split at h
      case isFalse => cases h
      case isTrue hplain =>
        obtain ⟨rfl, hplain⟩ := hplain
        obtain ⟨hread, hlt⟩ := Option.filter_eq_some_iff.1 h
        have hi : i < count := of_decide_eq_true hlt
        rcases (unsigned?_eq_some_iff (by decide)).1 hread with hdigits | ⟨ds, rfl, hdigits⟩
        · have hwritten := hdigits.eq_toDigits (startsPlainly_iff.1 hplain).2
          exact .inl ⟨hi, by rw [hname, hwritten, toList_toString]⟩
        · exact .inr ⟨hi, ds, hname, hdigits⟩
  · rintro (⟨hi, hname⟩ | ⟨hi, ds, hname, hdigits⟩)
    · refine hread hi hname (startsPlainly_toString i hi) ?_
      rw [toList_toString, unsigned?_eq_some_iff (by decide)]
      exact .inl (denotes_toDigits (by decide) (by decide) i)
    · refine hread hi hname ?_ ((unsigned?_eq_some_iff (by decide)).2 (.inr ⟨ds, rfl, hdigits⟩))
      cases ds <;> rfl

/-! ## Names and registers -/

/-- A name is looked up in a list first, and in one that holds no numbered name it makes no
difference which comes first. -/
theorem position?_or_eq_some_iff {names : List String} (hnodup : names.Nodup)
    (hapart : ∀ n ∈ names, numbered? letter n = none) :
    (position? names name).or (numbered? letter name) = some i ↔
      names[i]? = some name ∨ numbered? letter name = some i := by
  rw [Option.or_eq_some_iff, position?_eq_some_iff hnodup]
  refine or_congr_right ⟨And.right, fun hnumber => ⟨?_, hnumber⟩⟩
  refine Option.eq_none_iff_forall_ne_some.2 fun j hj => ?_
  have hmem := List.mem_of_getElem? ((position?_eq_some_iff hnodup).1 hj)
  rw [hapart name hmem] at hnumber
  cases hnumber

theorem numbered?_integerNames : ∀ n ∈ "fp" :: integerNames, numbered? 'x' n = none := by decide

theorem numbered?_floatNames : ∀ n ∈ floatNames, numbered? 'f' n = none := by decide

/-- What stands for an integer register. -/
theorem integerIndex?_eq_some_iff : integerIndex? name = some i ↔
    IsIntegerName name i ∨ IsPlusName 'x' name i := by
  have hlook : (position? integerNames name).or (numbered? 'x' name) = some i ↔
      integerNames[i]? = some name ∨ numbered? 'x' name = some i :=
    position?_or_eq_some_iff nodup_integerNames
      fun n hn => numbered?_integerNames n (List.mem_cons_of_mem _ hn)
  rw [integerIndex?, IsIntegerName, or_assoc, or_assoc, ← numbered?_eq_some_iff]
  by_cases hfp : name = "fp"
  · subst hfp
    have hnumber := numbered?_integerNames "fp" List.mem_cons_self
    have hposition : position? integerNames "fp" = none := by decide
    rw [← position?_eq_some_iff nodup_integerNames, hposition, hnumber]
    simp [eq_comm]
  · rw [if_neg hfp, hlook]
    simp [hfp]

/-- What stands for a floating-point register. -/
theorem floatIndex?_eq_some_iff : floatIndex? name = some i ↔
    IsFloatName name i ∨ IsPlusName 'f' name i := by
  rw [floatIndex?, position?_or_eq_some_iff nodup_floatNames numbered?_floatNames, IsFloatName,
    or_assoc, numbered?_eq_some_iff]

theorem integerIndex?_eq_none_iff : integerIndex? name = none ↔
    ∀ i, ¬IsIntegerName name i ∧ ¬IsPlusName 'x' name i := by
  simp only [Option.eq_none_iff_forall_ne_some, ne_eq, integerIndex?_eq_some_iff, not_or]

theorem floatIndex?_eq_none_iff : floatIndex? name = none ↔
    ∀ i, ¬IsFloatName name i ∧ ¬IsPlusName 'f' name i := by
  simp only [Option.eq_none_iff_forall_ne_some, ne_eq, floatIndex?_eq_some_iff, not_or]

theorem not_isNumberedName_of_isPlusName (h : IsPlusName letter name i) :
    ¬IsNumberedName letter name j := by
  rintro ⟨-, hname⟩
  obtain ⟨-, digits, hplus, -⟩ := h
  obtain ⟨-, hdigits⟩ := List.cons.inj (hplus.symm.trans hname)
  rw [toList_toString] at hdigits
  have hmem : '+' ∈ Nat.toDigits 10 j := hdigits ▸ List.mem_cons_self
  exact (denotes_toDigits (by decide) (by decide) j).not_mem (by decide) digit?_plus hmem

/-- No name of an integer register has a plus sign in it. -/
theorem not_isIntegerName_of_isPlusName (h : IsPlusName 'x' name i) : ¬IsIntegerName name j := by
  have hread : numbered? 'x' name = some i := numbered?_eq_some_iff.2 (.inr h)
  have habsurd : ¬name ∈ "fp" :: integerNames := by
    intro hmem
    rw [numbered?_integerNames name hmem] at hread
    cases hread
  rintro (hname | ⟨rfl, -⟩ | hname)
  · exact habsurd (List.mem_cons_of_mem _ (List.mem_of_getElem? hname))
  · exact habsurd List.mem_cons_self
  · exact not_isNumberedName_of_isPlusName h hname

/-- No name of a floating-point register has a plus sign in it. -/
theorem not_isFloatName_of_isPlusName (h : IsPlusName 'f' name i) : ¬IsFloatName name j := by
  have hread : numbered? 'f' name = some i := numbered?_eq_some_iff.2 (.inr h)
  rintro (hname | hname)
  · rw [numbered?_floatNames name (List.mem_of_getElem? hname)] at hread
    cases hread
  · exact not_isNumberedName_of_isPlusName h hname

end Register

namespace RegisterFile

variable {f : RegisterFile} {name : String}

/-- A name has a register of its own: it takes any word and gives it back, and no other name reads
a different word because of that. -/
def HasOwn (f : RegisterFile) (name : String) : Prop :=
  ∀ v, ∃ f', f.set name v = .ok (true, f') ∧ f'.get name = .ok (v, f') ∧
    ∀ other ≠ name, (f'.get other).map Prod.fst = (f.get other).map Prod.fst

theorem hasOwn_of_none (hunlimited : f.unlimited = true)
    (hname : Register.integerIndex? name = none) : f.HasOwn name := by
  intro v
  refine ⟨{ f with symbolic := f.symbolic.insert name v }, ?_, ?_, fun other hother => ?_⟩
  · rw [set_of_none hname, if_pos hunlimited]
  · rw [get_of_none hname, if_pos hunlimited, Std.TreeMap.getD_insert_self]
  · cases hindex : Register.integerIndex? other with
    | some i =>
      rw [get_of_some hindex, get_of_some hindex]
      rfl
    | none =>
      rw [get_of_none hindex, get_of_none hindex, if_pos hunlimited, if_pos hunlimited]
      simp [Std.TreeMap.getD_insert, hother.symm, Except.map]

end RegisterFile

namespace Register

/-- What a string is to a register file. -/
structure Resolved (name : String) : Prop where
  /-- The names of the integer registers and the strings with a plus sign stand for one. -/
  integer : ∀ i, integerIndex? name = some i ↔ IsIntegerName name i ∨ IsPlusName 'x' name i
  /-- The names of the floating-point registers and the strings with a plus sign stand for one. -/
  float : ∀ i, floatIndex? name = some i ↔ IsFloatName name i ∨ IsPlusName 'f' name i
  /-- The strings with a plus sign are names of nothing. -/
  plus : ∀ i j, (IsPlusName 'x' name i → ¬IsIntegerName name j) ∧
    (IsPlusName 'f' name i → ¬IsFloatName name j)
  /-- Any other string has a register of its own in unlimited mode, and is refused otherwise. -/
  other : (∀ i, ¬IsIntegerName name i ∧ ¬IsPlusName 'x' name i) → ∀ f : RegisterFile,
    (f.unlimited = true → f.HasOwn name) ∧
      (f.unlimited = false → f.get name = .error (.unknown name) ∧
        ∀ v, f.set name v = .error (.unknown name))
  /-- Any other string is refused for a floating-point register. -/
  otherFloat : (∀ i, ¬IsFloatName name i ∧ ¬IsPlusName 'f' name i) →
    ∀ (f : RegisterFile) (x : FloatValue), f.getFloat name = .error (.unknown name) ∧
      f.setFloat name x = .error (.unknown name)

/-- The names of a register stand for it, and so do the strings with a plus sign between the letter
and digits of its index. Every other string is refused, or has a register of its own. -/
theorem names_exact_iff (name : String) : Resolved name where
  integer _ := integerIndex?_eq_some_iff
  float _ := floatIndex?_eq_some_iff
  plus _ _ := ⟨not_isIntegerName_of_isPlusName, not_isFloatName_of_isPlusName⟩
  other h f := by
    have hnone := integerIndex?_eq_none_iff.2 h
    refine ⟨fun hunlimited => RegisterFile.hasOwn_of_none hunlimited hnone, fun hunlimited => ?_⟩
    simp [RegisterFile.get_of_none hnone, RegisterFile.set_of_none hnone, hunlimited]
  otherFloat h f x := by
    have hnone := floatIndex?_eq_none_iff.2 h
    exact ⟨RegisterFile.getFloat_of_none hnone, RegisterFile.setFloat_of_none hnone x⟩

theorem isPlusName_zero_five : IsPlusName 'x' "x+05" 5 :=
  ⟨by decide, ['0', '5'], rfl, (natural?_eq_some_iff (by decide)).1 (by decide)⟩

/-- A zero in front of an index makes a string a name of its own, unless a plus sign stands before
it. -/
theorem names_exact_of_zero_five :
    integerIndex? "x+05" = some 5 ∧ ¬IsIntegerName "x+05" 5 ∧
      ∀ f : RegisterFile, f.unlimited = true → f.HasOwn "x05" := by
  have hplain : integerIndex? "x05" = none := by decide
  refine ⟨((names_exact_iff "x+05").integer 5).2 (.inr isPlusName_zero_five),
    ((names_exact_iff "x+05").plus 5 5).1 isPlusName_zero_five, fun f => ?_⟩
  exact ((names_exact_iff "x05").other (integerIndex?_eq_none_iff.1 hplain) f).1

/-- So not only the names of a register stand for it. -/
theorem not_names_exact :
    ¬∀ name i, (integerIndex? name = some i ↔ IsIntegerName name i) ∧
      (floatIndex? name = some i ↔ IsFloatName name i) := by
  intro hall
  have hname := (hall "x+05" 5).1.1 (by decide)
  exact not_isIntegerName_of_isPlusName isPlusName_zero_five hname

end Register
end Riscv32
