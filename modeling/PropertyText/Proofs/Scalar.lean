/-
  PropertyText.Proofs.Scalar

  The text of a scalar stands for that scalar again, floating-point numbers left out:
  `ScalarType.parse?_render`.
-/
import PropertyText.Scalar

namespace PropertyText

namespace Number

/-- A digit is not a sign. -/
theorem splitSign_digit {c : Char} (h : c.isDigit = true) (rest : List Char) :
    splitSign (c :: rest) = (false, c :: rest) := by
  unfold splitSign
  split
  · rename_i h_eq
    cases h_eq
    exact absurd h (by decide)
  · rename_i h_eq
    cases h_eq
    exact absurd h (by decide)
  · rfl

theorem splitSign_toDigits (n : Nat) :
    splitSign (Nat.toDigits 10 n) = (false, Nat.toDigits 10 n) := by
  cases h : Nat.toDigits 10 n with
  | nil => exact absurd h Nat.toDigits_ne_nil
  | cons c rest =>
    exact splitSign_digit
      (Nat.isDigit_of_mem_toDigits (b := 10) (n := n) (by decide) (by decide) (by simp [h])) rest

theorem all_isDigit_toDigits (n : Nat) : (Nat.toDigits 10 n).all Char.isDigit = true := by
  rw [List.all_eq_true]
  intro c h_mem
  exact Nat.isDigit_of_mem_toDigits (by decide) (by decide) h_mem

end Number

namespace IntType

variable {t : IntType}

/-- Only a type with negative values holds one. -/
theorem signed_of_holds_negSucc {n : Nat} (h : t.Holds (.negSucc n)) : t.signed = true := by
  cases h_signed : t.signed with
  | true => rfl
  | false =>
    have h_least : t.least ≤ .negSucc n := h.1
    simp only [least, h_signed, Bool.false_eq_true, if_false] at h_least
    omega

theorem parse?_integerText (value : t.Value) :
    t.parse? (Number.integerText value.val) = some value := by
  obtain ⟨n, h⟩ := value
  cases n with
  | ofNat n =>
    have h_holds : t.Holds (n : Int) := h
    simp [parse?, Number.integerText, Number.splitSign_toDigits, Number.all_isDigit_toDigits,
      Number.withSign, Nat.toDigits_ne_nil, Nat.ofDigitChars_ten_toDigits, h_holds]
  | negSucc n =>
    have h_value : Number.withSign true (n + 1) = .negSucc n := by
      simp [Number.withSign, Int.negSucc_eq]
    simp [parse?, Number.integerText, Number.splitSign, Number.all_isDigit_toDigits,
      Nat.toDigits_ne_nil, Nat.ofDigitChars_ten_toDigits, signed_of_holds_negSucc h, h_value, h]

end IntType

/-- The types of floating-point numbers. -/
def ScalarType.isFloat : ScalarType → Bool
  | .single | .double => true
  | _ => false

/-- The text of a scalar stands for the scalar. -/
theorem ScalarType.parse?_render {value : Scalar} (h : value.type.isFloat = false) :
    value.type.parse? value.render = some value := by
  cases value with
  | bool value => cases value <;> rfl
  | int t value => simp [Scalar.type, Scalar.render, parse?, IntType.parse?_integerText]
  | single bits => cases h
  | double bits => cases h
  | char value => simp [Scalar.type, Scalar.render, parse?, onlyChar?]
  | text value => rfl

end PropertyText
