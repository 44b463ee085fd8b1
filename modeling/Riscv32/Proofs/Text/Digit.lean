import Mathlib.Data.List.Forall2
import Mathlib.Data.Nat.Digits.Defs
import Riscv32.Proofs.Text.Numeral

/-!
# Numerals by their digits

A numeral is a row of digits with the most significant one first, and it denotes the number that
its digits have in its base. Each reader accepts the numerals of its base behind the signs that it
allows, whatever their length, and nothing else. Among the decimal numerals of a number there is one
that no other digit makes longer: it is the one that is written.

## Main definitions

* `Numeral.IsDigit`, `Numeral.Denotes` — digits and the numerals that they make up.
* `Numeral.Sign`, `Numeral.Signed` — numerals behind a sign.

## Main statements

* `Numeral.natural?_eq_some_iff`, `Numeral.unsigned?_eq_some_iff` and
  `Numeral.signed?_eq_some_iff`, what the readers accept.
* `Numeral.Denotes.eq_toDigits`, the numeral without zeros in front.
-/
namespace Riscv32.Numeral

variable {base n d : Nat} {c : Char} {cs : List Char} {v : Int}

/-! ## Digits -/

/-- A character is the digit of a value in a base. A letter may be of either case. -/
def IsDigit (base : Nat) (c : Char) (d : Nat) : Prop :=
  d < base ∧ (c = Nat.digitChar d ∨ c = (Nat.digitChar d).toUpper)

instance : Decidable (IsDigit base c d) := inferInstanceAs (Decidable (_ ∧ _))

/-- Characters that have a value as digits are all of ASCII. -/
theorem toNat_lt_of_digitValue? (h : digitValue? c = some d) : c.toNat < 128 := by
  have hbound : ∀ last : Char, last.toNat < 128 → c ≤ last → c.toNat < 128 :=
    fun last hlast hle => Nat.lt_of_le_of_lt (UInt32.le_iff_toNat_le.1 hle) hlast
  unfold digitValue? at h
  split at h
  case isTrue hdigit => exact hbound '9' (by decide) hdigit.2
  split at h
  case isTrue hlower => exact hbound 'f' (by decide) hlower.2
  split at h
  case isTrue hupper => exact hbound 'F' (by decide) hupper.2
  cases h

theorem digitValue?_eq_some_iff : digitValue? c = some d ↔ IsDigit 16 c d := by
  constructor
  · intro h
    have hascii : ∀ i < 128, ∀ d ∈ digitValue? (Char.ofNat i), IsDigit 16 (Char.ofNat i) d := by
      decide
    have hc := hascii c.toNat (toNat_lt_of_digitValue? h)
    rw [Char.ofNat_toNat] at hc
    exact hc d h
  · have hlower : ∀ d < 16, digitValue? (Nat.digitChar d) = some d := by decide
    have hupper : ∀ d < 16, digitValue? (Nat.digitChar d).toUpper = some d := by decide
    rintro ⟨hd, rfl | rfl⟩
    · exact hlower d hd
    · exact hupper d hd

theorem digit?_eq_some_iff (hbase : base ≤ 16) : digit? base c = some d ↔ IsDigit base c d := by
  rw [digit?, Option.filter_eq_some_iff, digitValue?_eq_some_iff, decide_eq_true_iff, IsDigit,
    IsDigit]
  constructor
  · rintro ⟨⟨-, hc⟩, hd⟩
    exact ⟨hd, hc⟩
  · rintro ⟨hd, hc⟩
    exact ⟨⟨by omega, hc⟩, hd⟩

/-- Decimal digits are written in one way. -/
theorem IsDigit.eq_digitChar (h : IsDigit 10 c d) : c = Nat.digitChar d := by
  have hsame : ∀ d < 10, (Nat.digitChar d).toUpper = Nat.digitChar d := by decide
  rcases h with ⟨hd, rfl | rfl⟩
  · rfl
  · exact hsame d hd

/-! ## Numerals -/

/-- The characters are one or more digits, the most significant one first, and have the number `n`
in their base. -/
def Denotes (base : Nat) (cs : List Char) (n : Nat) : Prop :=
  ∃ ds, ds ≠ [] ∧ List.Forall₂ (IsDigit base) cs ds ∧ Nat.ofDigits base ds.reverse = n

theorem extend?_eq_some_iff (hbase : base ≤ 16) {acc : Nat} : extend? base acc cs = some n ↔
    ∃ ds, List.Forall₂ (IsDigit base) cs ds ∧ ds.foldl (fun m d => base * m + d) acc = n := by
  induction cs generalizing acc with
  | nil => simp [extend?]
  | cons c cs ih =>
    simp only [extend?, Option.bind_eq_bind, Option.bind_eq_some_iff, digit?_eq_some_iff hbase, ih,
      List.forall₂_cons_left_iff]
    constructor
    · rintro ⟨d, hd, ds, hds, rfl⟩
      exact ⟨d :: ds, ⟨d, ds, hd, hds, rfl⟩, rfl⟩
    · rintro ⟨_, ⟨d, ds, hd, hds, rfl⟩, rfl⟩
      exact ⟨d, hd, ds, hds, rfl⟩

theorem ofDigits_reverse (base : Nat) (ds : List Nat) :
    Nat.ofDigits base ds.reverse = ds.foldl (fun m d => base * m + d) 0 := by
  rw [Nat.ofDigits_eq_foldr, List.foldr_reverse]
  simp only [Nat.cast_id, Nat.add_comm]

/-- Numerals are read as what they denote, and nothing else is read. -/
theorem natural?_eq_some_iff (hbase : base ≤ 16) : natural? base cs = some n ↔
    Denotes base cs n := by
  simp only [Denotes, ofDigits_reverse]
  cases cs with
  | nil => simp [natural?]
  | cons c cs =>
    rw [natural?, extend?_eq_some_iff hbase]
    constructor
    · rintro ⟨ds, hds, hn⟩
      refine ⟨ds, ?_, hds, hn⟩
      rintro rfl
      cases hds
    · rintro ⟨ds, -, hds, hn⟩
      exact ⟨ds, hds, hn⟩

/-- The digits of a number denote it. -/
theorem denotes_toDigits (hone : 1 < base) (hbase : base ≤ 16) (n : Nat) :
    Denotes base (Nat.toDigits base n) n :=
  (natural?_eq_some_iff hbase).1 (natural?_toDigits hone hbase n)

/-- Digits that are read after a positive number stand behind those of that number. -/
theorem toDigits_append {acc : Nat} (hacc : 0 < acc) (h : extend? 10 acc cs = some n) :
    Nat.toDigits 10 acc ++ cs = Nat.toDigits 10 n := by
  induction cs generalizing acc with
  | nil =>
    obtain rfl : acc = n := Option.some.inj h
    rw [List.append_nil]
  | cons c cs ih =>
    obtain ⟨d, hd, hread⟩ := Option.bind_eq_some_iff.1 h
    have hdigit := (digit?_eq_some_iff (by decide)).1 hd
    -- one more digit does not put a zero in front, as there is a positive number before it
    have hlonger : Nat.toDigits 10 (10 * acc + d) = Nat.toDigits 10 acc ++ [c] := by
      rw [← Nat.toDigits_append_toDigits (by decide) hacc hdigit.1,
        Nat.toDigits_of_lt_base hdigit.1, hdigit.eq_digitChar]
    rw [← ih (by omega) hread, hlonger, List.append_assoc, List.singleton_append]

namespace Denotes

theorem ne_nil (h : Denotes base cs n) : cs ≠ [] := by
  obtain ⟨ds, hne, hds, -⟩ := h
  rintro rfl
  cases hds
  exact hne rfl

theorem extend?_eq (h : Denotes base cs n) (hbase : base ≤ 16) : extend? base 0 cs = some n := by
  have hread := (natural?_eq_some_iff hbase).2 h
  cases cs with
  | nil => cases hread
  | cons c cs => exact hread

/-- A numeral is made up of digits of its base. -/
theorem not_mem (h : Denotes base cs n) (hbase : base ≤ 16) (hc : digit? base c = none) :
    c ∉ cs := by
  intro hmem
  have hdigit := isSome_digit?_of_mem (h.extend?_eq hbase) hmem
  rw [hc] at hdigit
  cases hdigit

/-- The decimal numeral of a number without zeros in front is the one that is written. -/
theorem eq_toDigits (h : Denotes 10 cs n) (hplain : cs = ['0'] ∨ cs.head? ≠ some '0') :
    cs = Nat.toDigits 10 n := by
  have hread := h.extend?_eq (by decide)
  rcases hplain with rfl | hhead
  · obtain rfl : 0 = n := Option.some.inj hread
    rfl
  · cases cs with
    | nil => exact absurd rfl h.ne_nil
    | cons c cs =>
      obtain ⟨d, hd, hread⟩ := Option.bind_eq_some_iff.1 hread
      have hdigit := (digit?_eq_some_iff (by decide)).1 hd
      have hpositive : 0 < d := by
        refine Nat.pos_of_ne_zero ?_
        rintro rfl
        exact hhead (by rw [hdigit.eq_digitChar]; rfl)
      rw [Nat.mul_zero, Nat.zero_add] at hread
      rw [← toDigits_append hpositive hread, Nat.toDigits_of_lt_base hdigit.1,
        hdigit.eq_digitChar, List.singleton_append]

end Denotes

/-! ## Signs -/

/-- What stands in front of a numeral. -/
inductive Sign
  | absent
  | plus
  | minus

namespace Sign

/-- The text of a sign. -/
def text : Sign → List Char
  | absent => []
  | plus => ['+']
  | minus => ['-']

/-- What a sign makes of the number behind it. -/
def apply : Sign → Int → Int
  | absent, v => v
  | plus, v => v
  | minus, v => -v

theorem text_subset (s : Sign) : s.text ⊆ ['+', '-'] := by
  cases s <;> simp [text]

end Sign

/-- A numeral behind a sign. -/
def Signed (s : Sign) (base : Nat) (cs : List Char) (v : Int) : Prop :=
  ∃ ds n, Denotes base ds n ∧ cs = s.text ++ ds ∧ s.apply n = v

@[simp] theorem digit?_plus : digit? base '+' = none := rfl
@[simp] theorem digit?_minus : digit? base '-' = none := rfl

/-- A reader that allows a plus sign accepts numerals with one and numerals without. -/
theorem unsigned?_eq_some_iff (hbase : base ≤ 16) : unsigned? base cs = some n ↔
    Denotes base cs n ∨ ∃ ds, cs = '+' :: ds ∧ Denotes base ds n := by
  unfold unsigned?
  split
  next ds =>
    rw [natural?_eq_some_iff hbase]
    constructor
    · exact fun h => .inr ⟨ds, rfl, h⟩
    · rintro (h | ⟨_, ⟨⟩, h⟩)
      · exact absurd List.mem_cons_self (h.not_mem hbase digit?_plus)
      · exact h
  next hother =>
    rw [natural?_eq_some_iff hbase]
    refine ⟨.inl, ?_⟩
    rintro (h | ⟨ds, rfl, h⟩)
    · exact h
    · exact absurd rfl (hother ds)

theorem signed?_minus (base : Nat) (ds : List Char) :
    signed? base ('-' :: ds) = (natural? base ds).map fun n : Nat => Sign.minus.apply n := by
  rw [signed?]
  cases natural? base ds <;> rfl

theorem signed?_plus (base : Nat) (ds : List Char) :
    signed? base ('+' :: ds) = (natural? base ds).map fun n : Nat => Sign.plus.apply n := rfl

theorem signed?_absent (base : Nat) (hminus : ∀ ds, cs ≠ '-' :: ds) (hplus : ∀ ds, cs ≠ '+' :: ds) :
    signed? base cs = (natural? base cs).map fun n : Nat => Sign.absent.apply n :=
  signed?.eq_3 base cs hminus hplus

/-- A reader that allows any sign accepts numerals with one and numerals without. -/
theorem signed?_eq_some_iff (hbase : base ≤ 16) : signed? base cs = some v ↔
    ∃ s, Signed s base cs v := by
  have hnatural (s : Sign) (ds : List Char) :
      (natural? base ds).map (fun n : Nat => s.apply n) = some v ↔
        ∃ n : Nat, Denotes base ds n ∧ s.apply n = v := by
    simp only [Option.map_eq_some_iff, natural?_eq_some_iff hbase]
  constructor
  · intro h
    by_cases hminus : ∃ ds, cs = '-' :: ds
    · obtain ⟨ds, rfl⟩ := hminus
      rw [signed?_minus, hnatural] at h
      obtain ⟨n, hn, hv⟩ := h
      exact ⟨.minus, ds, n, hn, rfl, hv⟩
    by_cases hplus : ∃ ds, cs = '+' :: ds
    · obtain ⟨ds, rfl⟩ := hplus
      rw [signed?_plus, hnatural] at h
      obtain ⟨n, hn, hv⟩ := h
      exact ⟨.plus, ds, n, hn, rfl, hv⟩
    rw [signed?_absent base (not_exists.1 hminus) (not_exists.1 hplus), hnatural] at h
    obtain ⟨n, hn, hv⟩ := h
    exact ⟨.absent, cs, n, hn, rfl, hv⟩
  · rintro ⟨s, ds, n, hn, rfl, rfl⟩
    cases s with
    | plus => exact (signed?_plus base ds).trans ((hnatural .plus ds).2 ⟨n, hn, rfl⟩)
    | minus => exact (signed?_minus base ds).trans ((hnatural .minus ds).2 ⟨n, hn, rfl⟩)
    | absent =>
      have hfirst (c : Char) (hc : digit? base c = none) (cs : List Char) : ds ≠ c :: cs := by
        rintro rfl
        exact hn.not_mem hbase hc List.mem_cons_self
      have hread := signed?_absent base (hfirst '-' digit?_minus) (hfirst '+' digit?_plus)
      exact hread.trans ((hnatural .absent ds).2 ⟨n, hn, rfl⟩)

end Riscv32.Numeral
