import Riscv32.Instruction.Operand

/-!
# Register operands

An instruction that has a register for an operand has one of the file: names and numbered names
stand for registers below the count, and so do the fields of decoded words that are taken for
registers.

## Main statements

* `Instruction.register_lt` and `Instruction.floatRegister_lt`.
-/
namespace Riscv32

namespace Register

variable {name : String} {i : Nat}

theorem position?_lt {names : List String} (h : position? names name = some i) :
    i < names.length := by
  obtain ⟨hlt, -⟩ := List.findIdx?_eq_some_iff_getElem.1 h
  exact hlt

theorem numbered?_lt {letter : Char} (h : numbered? letter name = some i) : i < count := by
  unfold numbered? at h
  split at h
  · cases h
  · split at h
    · exact of_decide_eq_true (Option.filter_eq_some_iff.1 h).2
    · cases h

theorem integerIndex?_lt (h : integerIndex? name = some i) : i < count := by
  unfold integerIndex? at h
  split at h
  · cases h
    decide
  · rcases Option.or_eq_some_iff.1 h with h | ⟨-, h⟩
    · exact position?_lt h
    · exact numbered?_lt h

theorem floatIndex?_lt (h : floatIndex? name = some i) : i < count := by
  rcases Option.or_eq_some_iff.1 h with h | ⟨-, h⟩
  · exact position?_lt h
  · exact numbered?_lt h

end Register

namespace Instruction

variable {inst : Instruction} {index i : Nat}

theorem fieldIndex?_lt {v : Word} (h : fieldIndex? v = some i) : i < Register.count := by
  unfold fieldIndex? at h
  split at h
  case isTrue hlt =>
    cases h
    exact hlt
  case isFalse => cases h

/-- An operand that is given is what the text at its position stands for. -/
theorem exists_of_operand {α β : Type} {m : String} {ops : List α} {e : α → OperandError}
    {meaning : α → Option β} {b : β}
    (h : (operandAt m ops index >>= fun a => require (e a) (meaning a)) = .ok b) :
    ∃ a, meaning a = some b := by
  cases hat : operandAt m ops index with
  | error e =>
    rw [hat] at h
    cases h
  | ok a =>
    rw [hat] at h
    change require (e a) (meaning a) = .ok b at h
    cases hmeaning : meaning a with
    | none =>
      rw [hmeaning] at h
      cases h
    | some b' =>
      rw [hmeaning] at h
      cases h
      exact ⟨a, hmeaning⟩

/-- A register operand is an integer register of the file. -/
theorem register_lt (h : inst.register index = .ok i) : i < Register.count := by
  cases inst with
  | structured m ops =>
    obtain ⟨token, htoken⟩ := exists_of_operand h
    exact Register.integerIndex?_lt htoken
  | raw d =>
    obtain ⟨v, hv⟩ := exists_of_operand h
    exact fieldIndex?_lt hv

/-- A floating-point register operand is a floating-point register of the file. -/
theorem floatRegister_lt (h : inst.floatRegister index = .ok i) : i < Register.count := by
  cases inst with
  | structured m ops =>
    obtain ⟨token, htoken⟩ := exists_of_operand h
    exact Register.floatIndex?_lt htoken
  | raw d =>
    obtain ⟨v, hv⟩ := exists_of_operand h
    exact fieldIndex?_lt hv

end Instruction
end Riscv32
