import Mathlib.Order.Basic
import Riscv32.Text.Numeral

/-!
# Numerals that are read back

In every base up to sixteen the digits of a number are a numeral that stands for it, with or without
zeros in front. So numbers with the same numeral are equal.

## Main statements

* `Numeral.natural?_toDigits`, the digits of a number read back.
* `Numeral.hexPadded_inj` and `Numeral.hex_inj`, hexadecimal numerals tell numbers apart.
-/
namespace Riscv32.Numeral

variable {base acc m n : Nat} {c : Char} {cs : List Char}

theorem digit?_digitChar (hbase : base ≤ 16) {d : Nat} (hd : d < base) :
    digit? base (Nat.digitChar d) = some d := by
  have hvalue : ∀ d < 16, digitValue? (Nat.digitChar d) = some d := by decide
  rw [digit?, hvalue d (by omega), Option.filter_some, if_pos (decide_eq_true hd)]

theorem extend?_append (base acc : Nat) (cs ds : List Char) :
    extend? base acc (cs ++ ds) = (extend? base acc cs).bind (extend? base · ds) := by
  induction cs generalizing acc with
  | nil => rfl
  | cons c cs ih =>
    rw [List.cons_append, extend?, extend?]
    cases digit? base c with
    | none => rfl
    | some d => exact ih _

/-- The digits of a number are read as the number. -/
theorem extend?_toDigits (hone : 1 < base) (hbase : base ≤ 16) (n : Nat) :
    extend? base 0 (Nat.toDigits base n) = some n := by
  induction n using Nat.strongRecOn with
  | ind n ih =>
    by_cases hn : n < base
    · rw [Nat.toDigits_of_lt_base hn, extend?, digit?_digitChar hbase hn]
      simp [extend?]
    · have hle := Nat.not_lt.1 hn
      have hquotient : n / base < n := Nat.div_lt_self (by omega) hone
      have hdigit : n % base < base := Nat.mod_lt _ (by omega)
      rw [Nat.toDigits_of_base_le hone hle, extend?_append, ih _ hquotient, Option.bind_some,
        extend?, digit?_digitChar hbase hdigit]
      simp [extend?, Nat.div_add_mod]

theorem natural?_toDigits (hone : 1 < base) (hbase : base ≤ 16) (n : Nat) :
    natural? base (Nat.toDigits base n) = some n := by
  have hread := extend?_toDigits hone hbase n
  cases hcs : Nat.toDigits base n with
  | nil => exact absurd hcs Nat.toDigits_ne_nil
  | cons c cs =>
    rw [hcs] at hread
    exact hread

/-- What is read consists of digits. -/
theorem isSome_digit?_of_mem (h : extend? base acc cs = some n) (hc : c ∈ cs) :
    (digit? base c).isSome = true := by
  induction cs generalizing acc with
  | nil => cases hc
  | cons first cs ih =>
    rw [extend?] at h
    cases hfirst : digit? base first with
    | none =>
      rw [hfirst] at h
      cases h
    | some d =>
      rw [hfirst] at h
      rcases List.mem_cons.1 hc with rfl | hc
      · rw [hfirst, Option.isSome_some]
      · exact ih h hc

/-- Zeros in front of a numeral do not change what it stands for. -/
theorem extend?_leftpad (hbase : 0 < base) (width : Nat) (cs : List Char) :
    extend? base 0 (List.leftpad width '0' cs) = extend? base 0 cs := by
  have hdigit : digit? base '0' = some 0 := by simp [digit?, digitValue?, hbase]
  have hzeros : ∀ k, extend? base 0 (List.replicate k '0') = some 0 := by
    intro k
    induction k with
    | zero => rfl
    | succ k ih => simp [List.replicate_succ, extend?, hdigit, ih]
  rw [List.leftpad, extend?_append, hzeros, Option.bind_some]

/-! ## Hexadecimal numerals -/

theorem hex_eq_hexPadded (n : Nat) : hex n = hexPadded 0 n := by
  simp [hex, hexPadded, List.leftpad]

theorem toList_hexPadded (width n : Nat) : (hexPadded width n).toList =
    '0' :: 'x' :: List.leftpad width '0' (Nat.toDigits 16 n) := by
  simp [hexPadded]

theorem extend?_hexDigits (width n : Nat) :
    extend? 16 0 (List.leftpad width '0' (Nat.toDigits 16 n)) = some n := by
  rw [extend?_leftpad (by decide), extend?_toDigits (by decide) (by decide)]

/-- Padded hexadecimal numerals tell numbers apart. -/
theorem hexPadded_inj {width : Nat} : hexPadded width m = hexPadded width n ↔ m = n := by
  refine ⟨fun h => ?_, fun h => by rw [h]⟩
  have hlist := congrArg String.toList h
  rw [toList_hexPadded, toList_hexPadded, List.cons.injEq, List.cons.injEq] at hlist
  have hm := extend?_hexDigits width m
  rw [hlist.2.2, extend?_hexDigits width n] at hm
  exact (Option.some.inj hm).symm

theorem hex_inj : hex m = hex n ↔ m = n := by
  rw [hex_eq_hexPadded, hex_eq_hexPadded, hexPadded_inj]

/-- A hexadecimal numeral consists of digits and the letter of its mark. -/
theorem isSome_digit?_of_mem_hexPadded {width : Nat} (hc : c ∈ (hexPadded width n).toList) :
    c = 'x' ∨ (digit? 16 c).isSome = true := by
  rw [toList_hexPadded] at hc
  rcases List.mem_cons.1 hc with rfl | hc
  · exact .inr (by decide)
  · rcases List.mem_cons.1 hc with rfl | hc
    · exact .inl rfl
    · exact .inr (isSome_digit?_of_mem (extend?_hexDigits width n) hc)

/-- A decimal numeral consists of digits and a sign. -/
theorem isDigit_of_mem_toString {i : Int} (hc : c ∈ (toString i).toList) :
    c = '-' ∨ c.isDigit = true := by
  cases i with
  | ofNat n =>
    have hlist : (toString (Int.ofNat n)).toList = Nat.toDigits 10 n := Nat.toList_repr
    rw [hlist] at hc
    exact .inr (Nat.isDigit_of_mem_toDigits (by decide) (by decide) hc)
  | negSucc n =>
    have hlist : (toString (Int.negSucc n)).toList = '-' :: Nat.toDigits 10 (n + 1) := by
      change ("-" ++ (n + 1).repr).toList = _
      rw [String.toList_append, Nat.toList_repr]
      rfl
    rw [hlist, List.mem_cons] at hc
    exact hc.imp id fun hc => Nat.isDigit_of_mem_toDigits (by decide) (by decide) hc

end Riscv32.Numeral
