/-
  PropertyText.Proofs.Number.Shortest

  The decimal that is chosen for a floating-point number lies in the interval of the numbers
  that round to it, and has few enough digits to be read exactly.  Main statements:
  `Shortest.roundsTo_select` and `Shortest.digits_select_lt`.
-/
import PropertyText.Number.Literal
import PropertyText.Number.Shortest
import PropertyText.Proofs.Number.Rounding

namespace PropertyText

/-- The number that a decimal is. -/
def Decimal.toRat (d : Decimal) : ℚ := d.digits * 10 ^ d.exponent

namespace Shortest

/-! ## Decimals and the interval -/

variable {i : Interval}

/-- Decimals and numerators are compared as the numbers that they are. -/
theorem compare_eq (h : 0 < i.denominator) (d : Decimal) (numerator : Nat) :
    i.compare d numerator = Ord.compare d.toRat (numerator / i.denominator : ℚ) := by
  have h_decimal : d.toRat * (10 ^ (-d.exponent).toNat * i.denominator) =
      (d.digits * 10 ^ d.exponent.toNat * i.denominator : Nat) := by
    rw [Decimal.toRat, zpow_eq_div]
    push_cast
    field_simp
  have h_numerator : (numerator / i.denominator : ℚ) * (10 ^ (-d.exponent).toNat * i.denominator) =
      (numerator * 10 ^ (-d.exponent).toNat : Nat) := by
    push_cast
    field_simp
  have h_pos : (0 : ℚ) < 10 ^ (-d.exponent).toNat * i.denominator := by positivity
  simp only [Interval.compare, Nat.pow_eq]
  obtain h_lt | h_eq | h_gt := lt_trichotomy d.toRat (numerator / i.denominator)
  · rw [compare_lt_iff_lt.mpr h_lt, compare_lt_iff_lt]
    rw [← mul_lt_mul_iff_of_pos_right h_pos, h_decimal, h_numerator] at h_lt
    exact_mod_cast h_lt
  · rw [compare_eq_iff_eq.mpr h_eq, compare_eq_iff_eq]
    rw [← mul_left_inj' h_pos.ne', h_decimal, h_numerator] at h_eq
    exact_mod_cast h_eq
  · rw [compare_gt_iff_gt.mpr h_gt, compare_gt_iff_gt]
    rw [← mul_lt_mul_iff_of_pos_right h_pos, h_decimal, h_numerator] at h_gt
    exact_mod_cast h_gt

theorem holds_iff (h : 0 < i.denominator) (d : Decimal) :
    i.holds d = true ↔
      (i.low / i.denominator : ℚ) ≤ d.toRat ∧ d.toRat ≤ i.high / i.denominator ∧
        (d.toRat = i.low / i.denominator ∨ d.toRat = i.high / i.denominator →
          i.closed = true) := by
  rw [Interval.holds, compare_eq h, compare_eq h]
  simp only [Bool.and_eq_true, Bool.or_eq_true, beq_iff_eq, compare_lt_iff_lt, compare_gt_iff_gt,
    compare_eq_iff_eq]
  constructor
  · rintro ⟨h_low | ⟨h_closed, h_low⟩, h_high | ⟨h_closed', h_high⟩⟩ <;> grind
  · rintro ⟨h_low, h_high, h_closed⟩
    obtain h_low | h_low := h_low.lt_or_eq <;> obtain h_high | h_high := h_high.lt_or_eq <;> grind

/-! ## The interval around a value -/

variable {f : BinaryFormat} {significand : Nat} {exponent : Int}

/-- A numerator of the interval, in units of the last digit. -/
theorem around_div (numerator : Nat) :
    ((numerator * 2 ^ (exponent - 2).toNat : Nat) : ℚ) /
      (Interval.around f significand exponent).denominator = numerator / 4 * 2 ^ exponent := by
  have h_pow : (2 : ℚ) ^ exponent = 4 * 2 ^ (exponent - 2) := by
    rw [show (4 : ℚ) = 2 ^ (2 : ℤ) by norm_num, ← zpow_add₀ two_ne_zero, add_sub_cancel]
  rw [h_pow, zpow_eq_div, neg_sub, Interval.around]
  push_cast [Nat.pow_eq]
  field_simp

theorem around_denominator_pos : 0 < (Interval.around f significand exponent).denominator :=
  Nat.two_pow_pos _

theorem around_low (h : 0 < significand) :
    ((Interval.around f significand exponent).low : ℚ) /
      (Interval.around f significand exponent).denominator =
        (significand - f.margin significand exponent) * 2 ^ exponent := by
  have h_quarters : ((4 * significand - if significand == Nat.pow 2 f.fractionBits &&
      f.leastExponent < exponent then 1 else 2 : Nat) : ℚ) / 4 =
        significand - f.margin significand exponent := by
    rw [BinaryFormat.margin]
    simp only [Bool.and_eq_true, beq_iff_eq, decide_eq_true_eq, Nat.pow_eq]
    split
    all_goals
      rw [Nat.cast_sub (by omega)]
      push_cast
      ring
  rw [← h_quarters]
  exact around_div _

theorem around_value :
    ((Interval.around f significand exponent).value : ℚ) /
      (Interval.around f significand exponent).denominator = significand * 2 ^ exponent := by
  refine (around_div (4 * significand)).trans ?_
  push_cast
  ring

theorem around_high :
    ((Interval.around f significand exponent).high : ℚ) /
      (Interval.around f significand exponent).denominator =
        (significand + 1 / 2) * 2 ^ exponent := by
  refine (around_div (4 * significand + 2)).trans ?_
  push_cast
  ring

/-- The decimals that are told to read back are those that round to the value. -/
theorem roundsTo_of_holds (h : 0 < significand) {d : Decimal}
    (h_holds : (Interval.around f significand exponent).holds d = true) :
    f.RoundsTo significand exponent d.toRat := by
  have h_pow : (0 : ℚ) < 2 ^ exponent := by positivity
  rw [holds_iff around_denominator_pos, around_low h, around_high] at h_holds
  obtain ⟨h_low, h_high, h_tie⟩ := h_holds
  refine ⟨(le_div_iff₀ h_pow).mpr h_low, (div_le_iff₀ h_pow).mpr h_high, ?_⟩
  rw [div_eq_iff h_pow.ne', div_eq_iff h_pow.ne']
  intro h_end
  simpa [Interval.around] using h_tie h_end

/-- A value rounds to itself. -/
theorem roundsTo_self :
    f.RoundsTo significand exponent (significand * 2 ^ exponent) := by
  have h_pow : (0 : ℚ) < 2 ^ exponent := by positivity
  have h_margin : 0 < f.margin significand exponent := by
    rw [BinaryFormat.margin]
    split <;> norm_num
  refine ⟨?_, ?_, ?_⟩
  all_goals rw [mul_div_cancel_right₀ _ h_pow.ne']
  · linarith
  · linarith
  · rintro (h | h) <;> linarith

/-! ## The decimal that is chosen -/

/-- A decimal without the zeros at its end is the same number. -/
theorem toRat_strip (d : Decimal) : (strip d).toRat = d.toRat := by
  fun_induction strip d with
  | case1 d h ih =>
    have h_digits : (d.digits : ℚ) = 10 * (d.digits / 10 : Nat) := by
      exact_mod_cast (Nat.mul_div_cancel' (Nat.dvd_of_mod_eq_zero h.1)).symm
    rw [ih, Decimal.toRat, Decimal.toRat, h_digits, zpow_add_one₀ (by norm_num)]
    ring
  | case2 d h => rfl

theorem digits_strip_le (d : Decimal) : (strip d).digits ≤ d.digits := by
  fun_induction strip d with
  | case1 d h ih => exact ih.trans (Nat.div_le_self _ _)
  | case2 d h => rfl

theorem toRat_exact :
    (Interval.around f significand exponent).exact.toRat = significand * 2 ^ exponent := by
  have h_log : (Interval.around f significand exponent).denominator.log2 = (2 - exponent).toNat :=
    Nat.log2_two_pow
  have h_denominator : (Interval.around f significand exponent).denominator =
    2 ^ (2 - exponent).toNat := rfl
  have h_ten : (10 : ℚ) ^ (2 - exponent).toNat =
      2 ^ (2 - exponent).toNat * 5 ^ (2 - exponent).toNat := by
    rw [← mul_pow]
    norm_num
  rw [← around_value (f := f), Interval.exact, Decimal.toRat, h_log, h_denominator, zpow_neg,
    zpow_natCast, h_ten]
  push_cast [Nat.pow_eq]
  field_simp

/-- What stands on a grid holds, and has the grid's exponent. -/
theorem holds_of_onGrid {e : Int} {d : Decimal} (h : i.onGrid? e = some d) :
    i.holds d = true ∧ d.exponent = e := by
  simp only [Interval.onGrid?] at h
  split at h
  · obtain rfl := Option.some.inj h
    split <;> exact ⟨‹_›, rfl⟩
  · obtain rfl := Option.some.inj h
    exact ⟨‹_›, rfl⟩
  · obtain rfl := Option.some.inj h
    exact ⟨‹_›, rfl⟩
  · cases h

/-- The chosen decimal is one that holds, on a grid not far below the magnitude, or the value
itself, each without the zeros at its end. -/
theorem select_cases (f : BinaryFormat) (significand : Nat) (exponent : Int) :
    (∃ d, (Interval.around f significand exponent).holds d = true ∧
      (Interval.around f significand exponent).magnitude - 17 ≤ d.exponent ∧
      select f significand exponent = strip d) ∨
    select f significand exponent = strip (Interval.around f significand exponent).exact := by
  rw [select]
  cases h : List.findSome? (Interval.around f significand exponent).onGrid?
      ((List.range 17).map fun (n : Nat) =>
        (Interval.around f significand exponent).magnitude - 1 - (n : Int)) with
  | none =>
    right
    rw [Option.getD_none]
  | some d =>
    left
    obtain ⟨e, h_mem, h_grid⟩ := List.exists_of_findSome?_eq_some h
    obtain ⟨n, h_n, rfl⟩ := List.mem_map.mp h_mem
    obtain ⟨h_holds, h_exponent⟩ := holds_of_onGrid h_grid
    refine ⟨d, h_holds, ?_, by rw [Option.getD_some]⟩
    rw [List.mem_range] at h_n
    omega

/-- The chosen decimal rounds to the value. -/
theorem roundsTo_select (h : 0 < significand) :
    f.RoundsTo significand exponent (select f significand exponent).toRat := by
  obtain ⟨d, h_holds, -, h_select⟩ | h_select := select_cases f significand exponent
  · rw [h_select, toRat_strip]
    exact roundsTo_of_holds h h_holds
  · rw [h_select, toRat_strip, toRat_exact]
    exact roundsTo_self

/-! ## How many digits it has -/

/-- The formats whose finite values all lie between the powers -1075 and 1026 of two. -/
structure Bounded (f : BinaryFormat) : Prop where
  fractionBits_le : f.fractionBits ≤ 52
  least_le : -1074 ≤ f.leastExponent
  top_le : f.leastExponent + f.topField ≤ 973

theorem bounded_single : Bounded .single := by constructor <;> decide

theorem bounded_double : Bounded .double := by constructor <;> decide

section Bounds

theorem two_zpow_le_of_roundsTo {least : Int} {x : ℚ} (h_pos : 0 < significand)
    (h_least : least ≤ exponent) (h : f.RoundsTo significand exponent x) :
    2 ^ (least - 1) ≤ x := by
  have h_margin := f.margin_le significand exponent
  have h_one : (1 : ℚ) ≤ significand := by exact_mod_cast h_pos
  calc (2 : ℚ) ^ (least - 1) = 1 / 2 * 2 ^ least := by
        rw [zpow_sub_one₀ two_ne_zero]
        ring
    _ ≤ (significand - f.margin significand exponent) * 2 ^ exponent := by
        exact mul_le_mul (by linarith) (zpow_le_zpow_right₀ one_le_two h_least) (by positivity)
          (by linarith)
    _ ≤ x := (le_div_iff₀ (by positivity)).mp h.low

theorem lt_two_zpow_of_roundsTo {n : Nat} {top : Int} {x : ℚ} (h_significand : significand < 2 ^ n)
    (h_top : exponent ≤ top) (h : f.RoundsTo significand exponent x) : x < 2 ^ (n + top) := by
  have h_lt : (significand : ℚ) + 1 ≤ 2 ^ n := by exact_mod_cast h_significand
  calc x ≤ (significand + 1 / 2) * 2 ^ exponent := (div_le_iff₀ (by positivity)).mp h.high
    _ < (significand + 1) * 2 ^ exponent := by gcongr; norm_num
    _ ≤ 2 ^ n * 2 ^ top := by gcongr; exact one_le_two
    _ = 2 ^ (n + top) := by rw [zpow_add₀ two_ne_zero, zpow_natCast]

theorem two_pow_lt_ten_pow : 2 ^ 1075 < 10 ^ 400 := by decide +kernel

theorem two_pow_mul_five_pow_le {a b n : Nat} (h : a + b ≤ n) : 2 ^ a * 5 ^ b ≤ 5 ^ n :=
  calc 2 ^ a * 5 ^ b ≤ 5 ^ a * 5 ^ b := Nat.mul_le_mul_right _ (Nat.pow_le_pow_left (by decide) a)
    _ = 5 ^ (a + b) := (Nat.pow_add ..).symm
    _ ≤ 5 ^ n := Nat.pow_le_pow_right (by decide) h

theorem two_pow_mul_five_pow_lt : 2 ^ 55 * 5 ^ 1076 < 10 ^ Literal.digitLimit := by decide +kernel

variable (h_bounded : Bounded f) (h_finite : f.Finite significand exponent)
  (h_bits : f.finiteBits significand exponent < f.infinity)

include h_bounded h_finite

theorem significand_lt : significand < 2 ^ 53 :=
  calc significand < 2 * 2 ^ f.fractionBits := h_finite.significand_lt
    _ ≤ 2 * 2 ^ 52 :=
      Nat.mul_le_mul_left _ (Nat.pow_le_pow_right two_pos h_bounded.fractionBits_le)
    _ = 2 ^ 53 := rfl

include h_bits

theorem exponent_le : exponent ≤ 972 := by
  have h_field : (exponent - f.leastExponent).toNat < f.topField := by
    apply Nat.lt_of_mul_lt_mul_right (a := 2 ^ f.fractionBits)
    exact (Nat.le_add_right _ significand).trans_lt h_bits
  have := h_bounded.top_le
  have := h_finite.least_le
  omega

/-- Whatever rounds to a finite value is neither very small nor very great. -/
theorem bounds_of_roundsTo (h_pos : 0 < significand) {x : ℚ}
    (h : f.RoundsTo significand exponent x) : 10 ^ (-400 : ℤ) < x ∧ x < 10 ^ (400 : ℤ) := by
  have h_low := two_zpow_le_of_roundsTo h_pos (h_bounded.least_le.trans h_finite.least_le) h
  have h_high := lt_two_zpow_of_roundsTo (significand_lt h_bounded h_finite)
    (exponent_le h_bounded h_finite h_bits) h
  have h_ten : (2 : ℚ) ^ (1075 : ℤ) < 10 ^ (400 : ℤ) := by exact_mod_cast two_pow_lt_ten_pow
  constructor
  · refine lt_of_lt_of_le ?_ h_low
    rw [show (-1074 - 1 : ℤ) = -1075 from rfl, zpow_neg, zpow_neg]
    exact inv_strictAnti₀ (zpow_pos two_pos _) h_ten
  · exact h_high.trans (lt_of_le_of_lt (zpow_le_zpow_right₀ one_le_two (by decide)) h_ten)

omit h_bits in
/-- No grid lies so far below the values that its decimals would have very many digits. -/
theorem magnitude_ge : -325 ≤ (Interval.around f significand exponent).magnitude := by
  have h_log : (Interval.around f significand exponent).denominator.log2 = (2 - exponent).toNat :=
    Nat.log2_two_pow
  have h_least : -1074 ≤ exponent := h_bounded.least_le.trans h_finite.least_le
  simp only [Interval.magnitude, h_log]
  split_ifs <;> omega

/-- The chosen decimal has no more digits than are read exactly. -/
theorem digits_select_lt (h_pos : 0 < significand) :
    (select f significand exponent).digits < 10 ^ Literal.digitLimit := by
  obtain ⟨d, h_holds, h_exponent, h_select⟩ | h_select := select_cases f significand exponent
  · rw [h_select]
    refine (digits_strip_le d).trans_lt ?_
    have h_roundsTo := roundsTo_of_holds h_pos h_holds
    have h_high := (bounds_of_roundsTo h_bounded h_finite h_bits h_pos h_roundsTo).2
    have h_magnitude := magnitude_ge h_bounded h_finite
    have h_digits : (d.digits : ℚ) = d.toRat * 10 ^ (-d.exponent) := by
      rw [Decimal.toRat, mul_assoc, ← zpow_add₀ (by norm_num)]
      simp
    have h_lt : (d.digits : ℚ) < 10 ^ (Literal.digitLimit : ℤ) := by
      calc (d.digits : ℚ) = d.toRat * 10 ^ (-d.exponent) := h_digits
        _ < 10 ^ (400 : ℤ) * 10 ^ (-d.exponent) := by gcongr
        _ = 10 ^ (400 - d.exponent) := by rw [← zpow_add₀ (by norm_num)]; rfl
        _ ≤ 10 ^ (Literal.digitLimit : ℤ) :=
          zpow_le_zpow_right₀ (by norm_num) (by rw [Literal.digitLimit]; omega)
    exact_mod_cast h_lt
  · rw [h_select]
    refine (digits_strip_le _).trans_lt ?_
    have h_significand := significand_lt h_bounded h_finite
    have h_four : 4 * significand ≤ 2 ^ 55 := by omega
    have h_least : -1074 ≤ exponent := h_bounded.least_le.trans h_finite.least_le
    have h_top := exponent_le h_bounded h_finite h_bits
    have h_log : (Interval.around f significand exponent).denominator.log2 =
      (2 - exponent).toNat := Nat.log2_two_pow
    have h_exact : (Interval.around f significand exponent).exact.digits =
        4 * significand * 2 ^ (exponent - 2).toNat * 5 ^ (2 - exponent).toNat := by
      rw [Interval.exact, h_log]
      rfl
    rw [h_exact]
    -- One of the two exponents is zero.
    have h_pow := two_pow_mul_five_pow_le
      (show (exponent - 2).toNat + (2 - exponent).toNat ≤ 1076 by omega)
    calc 4 * significand * 2 ^ (exponent - 2).toNat * 5 ^ (2 - exponent).toNat
        = 4 * significand * (2 ^ (exponent - 2).toNat * 5 ^ (2 - exponent).toNat) :=
          Nat.mul_assoc ..
      _ ≤ 2 ^ 55 * 5 ^ 1076 := Nat.mul_le_mul h_four h_pow
      _ < 10 ^ Literal.digitLimit := two_pow_mul_five_pow_lt

end Bounds

end Shortest
end PropertyText
