/-
  PropertyText.Proofs.Number.Literal

  The text of a floating-point number is read as that number.  Main statements:
  `BinaryFormat.parse?_floatText` and `Scalar.parse?_render`.
-/
import Mathlib.Data.List.TakeWhile
import PropertyText.Number.Literal
import PropertyText.Proofs.Number.Shortest
import PropertyText.Proofs.Scalar

namespace PropertyText

open Shortest

/-! ## Digits -/

/-- A positive number does not begin with a zero. -/
theorem head_toDigits {n : Nat} (h : 0 < n) :
    ∃ c rest, Nat.toDigits 10 n = c :: rest ∧ c ≠ '0' := by
  induction n using Nat.strongRecOn with
  | ind n ih =>
    obtain h_digit | h_more := Nat.lt_or_ge n 10
    · refine ⟨n.digitChar, [], Nat.toDigits_of_lt_base h_digit, ?_⟩
      exact (by decide : ∀ n < 10, 0 < n → n.digitChar ≠ '0') n h_digit h
    · obtain ⟨c, rest, h_eq, h_c⟩ := ih (n / 10) (by omega) (by omega)
      exact ⟨c, rest ++ [(n % 10).digitChar],
        by rw [Nat.toDigits_of_base_le (by decide) h_more, h_eq, List.cons_append], h_c⟩

theorem ten_pow_le_of_toDigits {n : Nat} (h : 0 < n) :
    10 ^ ((Nat.toDigits 10 n).length - 1) ≤ n ∧ n < 10 ^ (Nat.toDigits 10 n).length := by
  have h_length := Nat.length_toDigits_pos (b := 10) (n := n)
  refine ⟨?_, (Nat.length_toDigits_le_iff (by decide) h_length).mp le_rfl⟩
  obtain h_one | h_more := Nat.eq_or_lt_of_le (Nat.succ_le_of_lt h_length)
  · rw [← h_one]
    exact h
  · have h_not := (Nat.length_toDigits_le_iff (b := 10) (n := n)
      (k := (Nat.toDigits 10 n).length - 1) (by decide) (by omega)).not.mp (by omega)
    omega

namespace Decimal

/-- The digits of a decimal, with the zeros that a positive exponent puts behind them. -/
def written (d : Decimal) : List Char :=
  Nat.toDigits 10 d.digits ++ List.replicate d.exponent.toNat '0'

variable {d : Decimal}

theorem written_ne_nil : d.written ≠ [] := by simp [written, Nat.toDigits_ne_nil]

theorem length_written :
    d.written.length = (Nat.toDigits 10 d.digits).length + d.exponent.toNat := by
  rw [written, List.length_append, List.length_replicate]

theorem all_isDigit_written : d.written.all Char.isDigit = true := by
  rw [written, List.all_append, Number.all_isDigit_toDigits, List.all_replicate]
  simp

theorem written_of_neg (h : d.exponent < 0) : d.written = Nat.toDigits 10 d.digits := by
  rw [written, Int.toNat_of_nonpos h.le, List.replicate_zero, List.append_nil]

theorem ofDigitChars_written :
    Nat.ofDigitChars 10 d.written 0 = d.digits * 10 ^ d.exponent.toNat := by
  rw [written, Nat.ofDigitChars_append, Nat.ofDigitChars_replicate_zero,
    Nat.ofDigitChars_ten_toDigits, Nat.mul_comm]

/-- Zeros in front are left out. -/
theorem dropWhile_written (h : 0 < d.digits) (k : Nat) :
    (List.replicate k '0' ++ d.written).dropWhile (· == '0') = d.written := by
  obtain ⟨c, tail, h_eq, h_c⟩ := head_toDigits h
  rw [List.dropWhile_append_of_pos (by simp), written, h_eq, List.cons_append,
    List.dropWhile_cons_of_neg (by simpa using h_c)]

/-- The length of a decimal is told by its size. -/
theorem length_toDigits_bounds {low high : Int} (h_pos : 0 < d.digits)
    (h_low : 10 ^ low < d.toRat) (h_high : d.toRat < 10 ^ high) :
    low < (Nat.toDigits 10 d.digits).length + d.exponent ∧
      (Nat.toDigits 10 d.digits).length + d.exponent ≤ high := by
  obtain ⟨h_ge, h_lt⟩ := ten_pow_le_of_toDigits h_pos
  have h_length := Nat.length_toDigits_pos (b := 10) (n := d.digits)
  have h_ten : (1 : ℚ) < 10 := by norm_num
  have h_above : d.toRat < 10 ^ ((Nat.toDigits 10 d.digits).length + d.exponent) := by
    have h_cast : (d.digits : ℚ) < 10 ^ (Nat.toDigits 10 d.digits).length := by exact_mod_cast h_lt
    rw [zpow_add₀ (by norm_num), zpow_natCast, toRat]
    gcongr
  have h_below : (10 : ℚ) ^ (((Nat.toDigits 10 d.digits).length - 1 : Nat) + d.exponent) ≤
      d.toRat := by
    have h_cast : (10 : ℚ) ^ ((Nat.toDigits 10 d.digits).length - 1) ≤ d.digits := by
      exact_mod_cast h_ge
    rw [zpow_add₀ (by norm_num), zpow_natCast, toRat]
    gcongr
  have h_first := (zpow_lt_zpow_iff_right₀ h_ten).mp (h_low.trans h_above)
  have h_second := (zpow_lt_zpow_iff_right₀ h_ten).mp (h_below.trans_lt h_high)
  omega

end Decimal

namespace Literal

/-! ## The digits of a decimal -/

section Parts

variable {whole part : List Char} (h_whole : whole.all Char.isDigit = true) (h_ne : whole ≠ [])

include h_whole h_ne

theorem decimal?_whole : decimal? whole = some (whole, 0) := by
  rw [List.all_eq_true] at h_whole
  have h_take : whole.takeWhile Char.isDigit = whole := List.takeWhile_eq_self_iff.mpr h_whole
  have h_drop : whole.dropWhile Char.isDigit = [] := List.dropWhile_eq_nil_iff.mpr h_whole
  simp [decimal?, h_take, h_drop, fraction, exponent?, h_ne]

theorem decimal?_point (h_part : part.all Char.isDigit = true) :
    decimal? (whole ++ '.' :: part) = some (whole ++ part, -(part.length : Int)) := by
  rw [List.all_eq_true] at h_whole h_part
  have h_take : (whole ++ '.' :: part).takeWhile Char.isDigit = whole := by
    rw [List.takeWhile_append_of_pos h_whole, List.takeWhile_cons_of_neg (by decide),
      List.append_nil]
  have h_drop : (whole ++ '.' :: part).dropWhile Char.isDigit = '.' :: part := by
    rw [List.dropWhile_append_of_pos h_whole, List.dropWhile_cons_of_neg (by decide)]
  have h_take_part : part.takeWhile Char.isDigit = part := List.takeWhile_eq_self_iff.mpr h_part
  have h_drop_part : part.dropWhile Char.isDigit = [] := List.dropWhile_eq_nil_iff.mpr h_part
  simp [decimal?, h_take, h_drop, fraction, h_take_part, h_drop_part, exponent?, h_ne]

end Parts

/-- A decimal written out has its digits behind some zeros. -/
theorem decimal?_positional (d : Decimal) :
    ∃ k, decimal? (Number.positional d) =
      some (List.replicate k '0' ++ d.written, min d.exponent 0) := by
  simp only [Number.positional]
  split_ifs with h_whole h_point
  · refine ⟨0, ?_⟩
    rw [← Decimal.written, decimal?_whole Decimal.all_isDigit_written Decimal.written_ne_nil]
    simp [h_whole]
  all_goals
    have h_digits := Decimal.all_isDigit_written (d := d)
    rw [← Decimal.written_of_neg (by omega)] at h_point ⊢
    generalize d.written = digits at *
    set places := (-d.exponent).toNat
  · refine ⟨0, ?_⟩
    have h_parts := h_digits
    rw [← List.take_append_drop (digits.length - places) digits, List.all_append,
      Bool.and_eq_true] at h_parts
    have h_ne : digits.take (digits.length - places) ≠ [] := by
      rw [← List.length_pos_iff, List.length_take]
      omega
    have h_exponent : -((digits.length - (digits.length - places) : Nat) : Int) =
        min d.exponent 0 := by omega
    rw [decimal?_point h_parts.1 h_ne h_parts.2, List.take_append_drop, List.length_drop,
      h_exponent]
    rfl
  · have h_part : (List.replicate (places - digits.length) '0' ++ digits).all Char.isDigit := by
      rw [List.all_append, h_digits, List.all_replicate]
      simp
    have h_exponent : -((places - digits.length + digits.length : Nat) : Int) =
        min d.exponent 0 := by omega
    have h_zero : ['0'].all Char.isDigit = true := by decide
    refine ⟨places - digits.length + 1, (decimal?_point h_zero (by simp) h_part).trans ?_⟩
    rw [List.length_append, List.length_replicate, h_exponent, List.replicate_succ]
    rfl

/-! ## Rounding a decimal -/

/-- Digits that are few are all kept. -/
theorem condense_eq_self {digits : List Char} (h : digits.length ≤ digitLimit) :
    condense digits = (digits, 0) := by
  rw [condense, List.drop_eq_nil_of_le h, List.take_of_length_le h]
  rfl

/-- Digits behind zeros are rounded as the decimal that they are. -/
theorem round_written {d : Decimal} (f : BinaryFormat) (negative : Bool) (k : Nat)
    (h_pos : 0 < d.digits) (h_digits : d.digits < 10 ^ digitLimit)
    (h_low : 10 ^ (-400 : ℤ) < d.toRat) (h_high : d.toRat < 10 ^ (400 : ℤ)) :
    round f negative (List.replicate k '0' ++ d.written) (min d.exponent 0) =
      f.nearest negative (d.digits * 10 ^ d.exponent.toNat) (10 ^ (-d.exponent).toNat) := by
  obtain ⟨h_least, h_greatest⟩ := Decimal.length_toDigits_bounds h_pos h_low h_high
  have h_length : (Nat.toDigits 10 d.digits).length ≤ digitLimit :=
    (Nat.length_toDigits_le_iff (by decide) (by decide)).mpr h_digits
  have h_condense : condense d.written = (d.written, 0) := by
    apply condense_eq_self
    rw [Decimal.length_written]
    simp only [digitLimit] at h_length ⊢
    omega
  have h_magnitude : (d.written.length : Int) + min d.exponent 0 =
      (Nat.toDigits 10 d.digits).length + d.exponent := by
    rw [Decimal.length_written]
    omega
  have h_present : d.written.isEmpty = false := by simp [Decimal.written_ne_nil]
  have h_up : (min d.exponent 0 + ((0 : Nat) : Int)).toNat = 0 := by omega
  have h_down : (-(min d.exponent 0 + ((0 : Nat) : Int))).toNat = (-d.exponent).toNat := by omega
  simp only [round, Decimal.dropWhile_written h_pos, h_magnitude, h_present, h_condense,
    Decimal.ofDigitChars_written, h_up, h_down]
  rw [if_neg (by simpa using h_least.le), if_neg (by omega)]
  simp only [Nat.pow_eq, Nat.pow_zero, Nat.mul_one]

end Literal

/-! ## The text of a number -/

namespace BinaryFormat

variable {f : BinaryFormat}

theorem toLower_digit {c : Char} (h : c.isDigit = true) : c.toLower = c := by
  have h_upper : ¬ (c.val ≥ 'A'.val ∧ c.val ≤ 'Z'.val) := by
    simp only [Char.isDigit, Bool.and_eq_true, decide_eq_true_eq] at h
    rintro ⟨h_upper, -⟩
    exact absurd (UInt32.le_trans h_upper h.2) (by decide)
  exact dif_neg h_upper

/-- What begins with a digit is read as a decimal. -/
theorem parse?_digit {c : Char} (h : c.isDigit = true) (rest : List Char) (negative : Bool) :
    f.parse? (String.ofList (if negative then '-' :: c :: rest else c :: rest)) =
      (Literal.decimal? (c :: rest)).map fun (digits, exponent) =>
        Literal.round f negative digits exponent := by
  have h_sign : Number.splitSign (if negative then '-' :: c :: rest else c :: rest) =
      (negative, c :: rest) := by
    cases negative with
    | true => rfl
    | false => exact Number.splitSign_digit h rest
  have h_word (w : Char) (word : List Char) (h_w : w.isDigit = false) :
      (String.ofList ((c :: rest).map Char.toLower) == String.ofList (w :: word)) = false := by
    rw [beq_eq_false_iff_ne, Ne, String.ofList_inj, List.map_cons, List.cons.injEq,
      toLower_digit h]
    rintro ⟨rfl, -⟩
    rw [h] at h_w
    cases h_w
  have h_inf := h_word 'i' ['n', 'f'] (by decide)
  have h_infinity := h_word 'i' ['n', 'f', 'i', 'n', 'i', 't', 'y'] (by decide)
  have h_nan := h_word 'n' ['a', 'n'] (by decide)
  simp only [parse?, String.toList_ofList, h_sign]
  rw [if_neg, if_neg]
  · exact ne_true_of_eq_false h_nan
  · rw [Bool.or_eq_true, not_or]
    exact ⟨ne_true_of_eq_false h_inf, ne_true_of_eq_false h_infinity⟩

theorem positional_head (d : Decimal) :
    ∃ c rest, Number.positional d = c :: rest ∧ c.isDigit = true := by
  have h_digits := Number.all_isDigit_toDigits d.digits
  simp only [Number.positional]
  cases h : Nat.toDigits 10 d.digits with
  | nil => exact absurd h Nat.toDigits_ne_nil
  | cons c rest =>
    rw [h, List.all_cons, Bool.and_eq_true] at h_digits
    split_ifs with h_whole h_point
    · exact ⟨c, _, rfl, h_digits.1⟩
    · obtain ⟨n, h_n⟩ := Nat.exists_eq_succ_of_ne_zero (Nat.sub_ne_zero_of_lt h_point)
      rw [h_n, List.take_succ_cons]
      exact ⟨c, _, rfl, h_digits.1⟩
    · exact ⟨'0', _, rfl, by decide⟩

variable {bits significand : Nat} {exponent : Int}

/-- The text of a finite value is read as its bits. -/
theorem parse?_finite (h_bounded : Bounded f) (h_finite : f.Finite significand exponent)
    (h_bits : f.finiteBits significand exponent < f.infinity) (h_pos : 0 < significand)
    (negative : Bool) :
    f.parse? (String.ofList (if negative then
        '-' :: Number.positional (select f significand exponent)
      else Number.positional (select f significand exponent))) =
      some (f.signBit negative + f.finiteBits significand exponent) := by
  have h_roundsTo : f.RoundsTo significand exponent (select f significand exponent).toRat :=
    roundsTo_select h_pos
  obtain ⟨h_low, h_high⟩ := bounds_of_roundsTo h_bounded h_finite h_bits h_pos h_roundsTo
  have h_digits := digits_select_lt h_bounded h_finite h_bits h_pos
  generalize select f significand exponent = d at *
  have h_digits_pos : 0 < d.digits := by
    rw [Nat.pos_iff_ne_zero]
    intro h_zero
    have h_toRat : (0 : ℚ) < d.toRat := (zpow_pos (by norm_num) _).trans h_low
    simp [Decimal.toRat, h_zero] at h_toRat
  have h_fraction :
      ((d.digits * 10 ^ d.exponent.toNat : Nat) : ℚ) / (10 ^ (-d.exponent).toNat : Nat) =
        d.toRat := by
    rw [Decimal.toRat, zpow_eq_div]
    push_cast
    ring
  obtain ⟨c, rest, h_head, h_c⟩ := positional_head d
  obtain ⟨k, h_decimal⟩ := Literal.decimal?_positional d
  rw [h_head] at h_decimal ⊢
  rw [parse?_digit h_c, h_decimal, Option.map_some]
  dsimp only
  rw [Literal.round_written f negative k h_digits_pos h_digits h_low h_high]
  congr 1
  exact nearest_of_roundsTo (Nat.mul_pos h_digits_pos (Nat.pow_pos (by decide)))
    (Nat.pow_pos (by decide)) h_finite h_bits.le (by rwa [h_fraction]) negative

/-- The text of every number is read as the number's bits. -/
theorem parse?_floatText (h_bounded : Bounded f)
    (h : bits < 2 * 2 ^ (f.fractionBits + f.exponentBits)) (h_value : f.value bits ≠ .notANumber) :
    f.parse? (Number.floatText f bits) = some bits := by
  have h_bits := bits_of_value h
  rw [Number.floatText]
  cases h_eq : f.value bits with
  | notANumber => exact absurd h_eq h_value
  | infinite negative =>
    rw [h_eq] at h_bits
    rw [h_bits]
    cases negative <;> simp [parse?, Number.splitSign]
  | finite negative significand exponent =>
    rw [h_eq] at h_bits
    obtain ⟨h_finite, h_lt, rfl⟩ := h_bits
    obtain rfl | h_pos := significand.eq_zero_or_pos
    · have h_least : exponent = f.leastExponent :=
        h_finite.leading.resolve_left (by simp)
      have h_zero := parse?_digit (f := f) (c := '0') (by decide) [] negative
      rw [Literal.decimal?_whole (by decide) (by simp)] at h_zero
      rw [h_least, finiteBits]
      simpa [Literal.round] using h_zero
    · obtain ⟨n, rfl⟩ := Nat.exists_eq_succ_of_ne_zero h_pos.ne'
      exact parse?_finite h_bounded h_finite h_lt h_pos negative

end BinaryFormat

/-! ## The text of a scalar -/

/-- Floating-point numbers that are none. -/
def Scalar.isNaN : Scalar → Bool
  | .single bits => BinaryFormat.single.value bits.toNat == .notANumber
  | .double bits => BinaryFormat.double.value bits.toNat == .notANumber
  | _ => false

/-- The text of a scalar stands for the scalar, unless that is a number which is none. -/
theorem Scalar.parse?_render {value : Scalar} (h : value.isNaN = false) :
    value.type.parse? value.render = some value := by
  cases value with
  | single bits =>
    have h_bits := BinaryFormat.parse?_floatText bounded_single bits.toNat_lt
      (by simpa [Scalar.isNaN] using h)
    simp [Scalar.type, Scalar.render, ScalarType.parse?, h_bits]
  | double bits =>
    have h_bits := BinaryFormat.parse?_floatText bounded_double bits.toNat_lt
      (by simpa [Scalar.isNaN] using h)
    simp [Scalar.type, Scalar.render, ScalarType.parse?, h_bits]
  | bool | int | char | text => exact ScalarType.parse?_render rfl

end PropertyText
