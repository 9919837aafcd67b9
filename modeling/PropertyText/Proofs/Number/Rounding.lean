/-
  PropertyText.Proofs.Number.Rounding

  Rounding to a binary floating-point number.  A finite value's bits are the sign, and the
  significand behind the exponent; every fraction in the interval around the value is rounded
  to these bits.  Main statements: `BinaryFormat.bits_of_value` and
  `BinaryFormat.nearest_of_roundsTo`.
-/
import Mathlib.Algebra.Order.Field.Power
import Mathlib.Data.Int.Log
import Mathlib.Data.Rat.Floor
import Mathlib.Tactic.FieldSimp
import Mathlib.Tactic.GCongr
import Mathlib.Tactic.Linarith
import Mathlib.Tactic.NormNum
import Mathlib.Tactic.Positivity
import Mathlib.Tactic.Ring
import PropertyText.Number.Binary

namespace PropertyText

/-- A power with a sign in its exponent is a fraction of powers without. -/
theorem zpow_eq_div (a : ℚ) (e : ℤ) : a ^ e = a ^ e.toNat / a ^ (-e).toNat := by
  obtain ⟨n, rfl | rfl⟩ := e.eq_nat_or_neg
  · simp
  · simp

namespace BinaryFormat

/-! ## Finite values -/

/-- The significands and exponents of finite values: the leading digit of the significand is
there, unless the exponent is the least one. -/
structure Finite (f : BinaryFormat) (significand : Nat) (exponent : Int) : Prop where
  least_le : f.leastExponent ≤ exponent
  significand_lt : significand < 2 * 2 ^ f.fractionBits
  leading : 2 ^ f.fractionBits ≤ significand ∨ exponent = f.leastExponent

/-- The bits of a finite value, the sign left out. -/
def finiteBits (f : BinaryFormat) (significand : Nat) (exponent : Int) : Nat :=
  (exponent - f.leastExponent).toNat * 2 ^ f.fractionBits + significand

/-- What the bits of a value are, by what they stand for. -/
def BitsOf (f : BinaryFormat) (bits : Nat) : BinaryValue → Prop
  | .notANumber => True
  | .infinite negative => bits = f.signBit negative + f.infinity
  | .finite negative significand exponent =>
    f.Finite significand exponent ∧ f.finiteBits significand exponent < f.infinity ∧
      bits = f.signBit negative + f.finiteBits significand exponent

variable {f : BinaryFormat} {bits : Nat}

/-- Bits are put together from a sign, an exponent field and a fraction. -/
theorem bits_eq_fields (h : bits < 2 * 2 ^ (f.fractionBits + f.exponentBits)) :
    bits = f.signBit (bits / 2 ^ (f.fractionBits + f.exponentBits) % 2 == 1) +
      (bits / 2 ^ f.fractionBits % 2 ^ f.exponentBits * 2 ^ f.fractionBits +
        bits % 2 ^ f.fractionBits) := by
  have h_sign : bits / 2 ^ (f.fractionBits + f.exponentBits) < 2 :=
    Nat.div_lt_of_lt_mul (by rwa [Nat.mul_comm])
  have h_signBit : f.signBit (bits / 2 ^ (f.fractionBits + f.exponentBits) % 2 == 1) =
      2 ^ (f.fractionBits + f.exponentBits) * (bits / 2 ^ (f.fractionBits + f.exponentBits)) := by
    obtain h_zero | h_one := Nat.le_one_iff_eq_zero_or_eq_one.mp (Nat.le_of_lt_succ h_sign)
    · rw [h_zero]
      rfl
    · rw [h_one]
      exact (Nat.mul_one _).symm
  rw [h_signBit, Nat.pow_add, ← Nat.div_div_eq_div_mul]
  have h_fraction := Nat.div_add_mod bits (2 ^ f.fractionBits)
  have h_field := Nat.div_add_mod (bits / 2 ^ f.fractionBits) (2 ^ f.exponentBits)
  rw [← h_field] at h_fraction
  linarith [h_fraction]

/-- The bits of a value are told by what they stand for. -/
theorem bits_of_value (h : bits < 2 * 2 ^ (f.fractionBits + f.exponentBits)) :
    f.BitsOf bits (f.value bits) := by
  have h_bits := bits_eq_fields h
  have h_fraction : bits % 2 ^ f.fractionBits < 2 ^ f.fractionBits :=
    Nat.mod_lt _ (Nat.two_pow_pos _)
  have h_field : bits / 2 ^ f.fractionBits % 2 ^ f.exponentBits < 2 ^ f.exponentBits :=
    Nat.mod_lt _ (Nat.two_pow_pos _)
  simp only [value, Nat.pow_eq]
  generalize bits % 2 ^ f.fractionBits = fraction at *
  generalize bits / 2 ^ f.fractionBits % 2 ^ f.exponentBits = field at *
  generalize (bits / 2 ^ (f.fractionBits + f.exponentBits) % 2 == 1) = negative at *
  have h_top : f.topField = 2 ^ f.exponentBits - 1 := rfl
  split_ifs with h_infinite h_zero h_subnormal
  · simp only [beq_iff_eq] at h_infinite h_zero
    rwa [h_infinite, h_zero, Nat.add_zero] at h_bits
  · trivial
  · simp only [beq_iff_eq] at h_infinite h_subnormal
    subst h_subnormal
    rw [Nat.zero_mul, Nat.zero_add] at h_bits
    refine ⟨⟨le_rfl, by omega, .inr rfl⟩, ?_, ?_⟩
    · have h_one : 1 ≤ f.topField := by omega
      calc f.finiteBits fraction f.leastExponent = fraction := by simp [finiteBits]
        _ < 1 * 2 ^ f.fractionBits := by omega
        _ ≤ f.infinity := Nat.mul_le_mul_right _ h_one
    · simpa [finiteBits] using h_bits
  · simp only [beq_iff_eq] at h_infinite h_subnormal
    have h_finite : f.finiteBits (2 ^ f.fractionBits + fraction) (f.leastExponent + field - 1) =
        field * 2 ^ f.fractionBits + fraction := by
      obtain ⟨n, rfl⟩ := Nat.exists_eq_succ_of_ne_zero h_subnormal
      have h_exponent : (f.leastExponent + (n + 1 : Nat) - 1 - f.leastExponent).toNat = n := by
        omega
      rw [finiteBits, h_exponent, Nat.succ_mul, Nat.add_assoc]
    refine ⟨⟨by omega, by omega, .inl (by omega)⟩, ?_, by rw [h_finite]; exact h_bits⟩
    have h_below : field + 1 ≤ f.topField := by omega
    calc f.finiteBits (2 ^ f.fractionBits + fraction) (f.leastExponent + field - 1)
        = field * 2 ^ f.fractionBits + fraction := h_finite
      _ < (field + 1) * 2 ^ f.fractionBits := by rw [Nat.succ_mul]; omega
      _ ≤ f.infinity := Nat.mul_le_mul_right _ h_below

/-! ## Rounding a quotient -/

/-- A fraction is rounded to the whole number within half of it, a tie to the even one. -/
theorem roundedQuotient_eq {num den s : Nat} (h_den : 0 < den)
    (h_low : (s - 1 / 2 : ℚ) ≤ num / den) (h_high : (num / den : ℚ) ≤ s + 1 / 2)
    (h_tie : (num / den : ℚ) = s - 1 / 2 ∨ (num / den : ℚ) = s + 1 / 2 → s % 2 = 0) :
    roundedQuotient num den = s := by
  have h_pos : (0 : ℚ) < den := by exact_mod_cast h_den
  have h_split : (num : ℚ) / den = (num / den : Nat) + (num % den : Nat) / den := by
    have h_num : (num : ℚ) = den * (num / den : Nat) + (num % den : Nat) := by
      exact_mod_cast (Nat.div_add_mod num den).symm
    rw [eq_comm, add_div' _ _ _ h_pos.ne', mul_comm, ← h_num]
  have h_rem : ((num % den : Nat) : ℚ) / den < 1 := by
    rw [div_lt_one h_pos]
    exact_mod_cast Nat.mod_lt num h_den
  have h_nonneg : (0 : ℚ) ≤ (num % den : Nat) / den := by positivity
  have h_above : (num % den : Nat) / den ≤ (1 / 2 : ℚ) ↔ 2 * (num % den) ≤ den := by
    rw [div_le_div_iff₀ h_pos two_pos, one_mul, mul_comm]
    exact_mod_cast Iff.rfl
  have h_middle : (num % den : Nat) / den = (1 / 2 : ℚ) ↔ 2 * (num % den) = den := by
    rw [div_eq_div_iff h_pos.ne' two_ne_zero, one_mul, mul_comm]
    exact_mod_cast Iff.rfl
  rw [h_split] at h_low h_high h_tie
  rw [roundedQuotient]
  generalize num / den = q at *
  generalize ((num % den : Nat) : ℚ) / den = part at *
  have h_q : q ≤ s := by
    have : (q : ℚ) < s + 1 := by linarith
    exact Nat.lt_succ_iff.mp (by exact_mod_cast this)
  have h_s : s ≤ q + 1 := by
    have : (s : ℚ) < q + 2 := by linarith
    exact Nat.lt_succ_iff.mp (by exact_mod_cast this)
  obtain rfl | rfl : s = q ∨ s = q + 1 := by omega
  · have h_half : 2 * (num % den) ≤ den := h_above.mp (by linarith)
    have h_even : 2 * (num % den) = den → s % 2 = 0 :=
      fun h => h_tie (.inr (by rw [h_middle.mpr h]))
    rw [if_neg]
    simp only [Bool.or_eq_true, Bool.and_eq_true, decide_eq_true_eq, beq_iff_eq]
    omega
  · push_cast at h_low h_tie
    have h_half : den ≤ 2 * (num % den) := by
      by_contra h
      have h_below : part < 1 / 2 := lt_of_le_of_ne (h_above.mpr (by omega)) (by
        rw [Ne, h_middle]
        omega)
      linarith
    have h_even : 2 * (num % den) = den → (q + 1) % 2 = 0 := by
      intro h
      refine h_tie (.inl ?_)
      rw [h_middle.mpr h]
      ring
    rw [if_pos]
    simp only [Bool.or_eq_true, Bool.and_eq_true, decide_eq_true_eq, beq_iff_eq]
    omega

/-! ## Rounding a fraction -/

/-- A fraction is scaled by a power of two. -/
theorem scaled_div (num den : Nat) (e : ℤ) :
    ((scaled num den e).1 : ℚ) / (scaled num den e).2 = num / den / 2 ^ e := by
  rw [zpow_eq_div, scaled]
  push_cast [Nat.pow_eq]
  field_simp

theorem scaled_den_pos {num den : Nat} (h : 0 < den) (e : ℤ) : 0 < (scaled num den e).2 :=
  Nat.mul_pos h (Nat.two_pow_pos _)

theorem le_log_iff {x : ℚ} (h : 0 < x) (k e : ℤ) :
    k + e ≤ Int.log 2 x ↔ 2 ^ k ≤ x / 2 ^ e := by
  rw [← Int.zpow_le_iff_le_log one_lt_two h, le_div_iff₀ (by positivity), ← zpow_add₀ two_ne_zero]
  rfl

theorem log_lt_iff {x : ℚ} (h : 0 < x) (k e : ℤ) :
    Int.log 2 x < k + e ↔ x / 2 ^ e < 2 ^ k := by
  rw [← Int.lt_zpow_iff_log_lt one_lt_two h, div_lt_iff₀ (by positivity), ← zpow_add₀ two_ne_zero]
  rfl

/-- A whole number and the power of two that it has as many digits as. -/
theorem log2_bounds {n : Nat} (h : 0 < n) :
    (2 : ℚ) ^ (n.log2 : ℤ) ≤ n ∧ (n : ℚ) < 2 ^ (n.log2 + 1 : ℤ) := by
  constructor
  · rw [zpow_natCast]
    exact_mod_cast Nat.log2_self_le h.ne'
  · exact_mod_cast Nat.lt_log2_self (n := n)

/-- The leading exponent of a fraction is its logarithm. -/
theorem leadingExponent_eq_log {num den : Nat} (h_num : 0 < num) (h_den : 0 < den) :
    leadingExponent num den = Int.log 2 (num / den : ℚ) := by
  have h_pos : (0 : ℚ) < num / den := by positivity
  obtain ⟨h_num_low, h_num_high⟩ := log2_bounds h_num
  obtain ⟨h_den_low, h_den_high⟩ := log2_bounds h_den
  have h_low : (num.log2 : ℤ) - den.log2 - 1 ≤ Int.log 2 (num / den : ℚ) := by
    rw [← Int.zpow_le_iff_le_log one_lt_two h_pos, Nat.cast_ofNat, sub_sub, zpow_sub₀ two_ne_zero]
    gcongr
  have h_high : Int.log 2 (num / den : ℚ) < (num.log2 : ℤ) - den.log2 + 1 := by
    rw [← Int.lt_zpow_iff_log_lt one_lt_two h_pos, Nat.cast_ofNat, sub_add_eq_add_sub,
      zpow_sub₀ two_ne_zero]
    gcongr
  -- The guess is too great by one if the scaled fraction is below one.
  have h_guess : (scaled num den (num.log2 - den.log2)).1 <
      (scaled num den (num.log2 - den.log2)).2 ↔
        Int.log 2 (num / den : ℚ) < 0 + (num.log2 - den.log2) := by
    rw [log_lt_iff h_pos, ← scaled_div, zpow_zero,
      div_lt_one (by exact_mod_cast scaled_den_pos h_den _), Nat.cast_lt]
  rw [leadingExponent]
  simp only [h_guess]
  split <;> omega

/-- How far below its significand a value's interval reaches, in units of the last digit. Just
above a power of two the neighbour below is only half as far away. -/
def margin (f : BinaryFormat) (significand : Nat) (exponent : Int) : ℚ :=
  if significand = 2 ^ f.fractionBits ∧ f.leastExponent < exponent then 1 / 4 else 1 / 2

/-- The numbers from halfway to the neighbour below to halfway to the neighbour above; both
ends belong to them if the significand is even. -/
structure RoundsTo (f : BinaryFormat) (significand : Nat) (exponent : Int) (x : ℚ) : Prop where
  low : significand - f.margin significand exponent ≤ x / 2 ^ exponent
  high : x / 2 ^ exponent ≤ significand + 1 / 2
  tie : x / 2 ^ exponent = significand - f.margin significand exponent ∨
    x / 2 ^ exponent = significand + 1 / 2 → significand % 2 = 0

theorem margin_le (f : BinaryFormat) (significand : Nat) (exponent : Int) :
    f.margin significand exponent ≤ 1 / 2 := by
  rw [margin]
  split <;> norm_num

/-- The number may be a little below a power of two that it rounds to. -/
theorem RoundsTo.low_of_power {f : BinaryFormat} {significand : Nat} {exponent : Int} {x : ℚ}
    (h : f.RoundsTo significand exponent x) (h_significand : significand = 2 ^ f.fractionBits)
    (h_above : f.leastExponent < exponent) : 2 ^ f.fractionBits - 1 / 4 ≤ x / 2 ^ exponent := by
  have h_low := h.low
  rw [margin, if_pos ⟨h_significand, h_above⟩, h_significand] at h_low
  exact_mod_cast h_low

/-- The exponent of the last digit when a number is rounded: the significand gets all its
digits, unless the number is too small for that. -/
def lastExponent (f : BinaryFormat) (x : ℚ) : ℤ :=
  max (Int.log 2 x - f.fractionBits) f.leastExponent

/-- A number that rounds to a finite value has the exponent of that value, but for one that
is just below a power of two and has the next smaller one. -/
theorem lastExponent_of_roundsTo {f : BinaryFormat} {significand : Nat} {exponent : Int} {x : ℚ}
    (h_pos : 0 < x) (h_finite : f.Finite significand exponent)
    (h : f.RoundsTo significand exponent x) :
    f.lastExponent x = exponent ∨
      f.lastExponent x = exponent - 1 ∧ significand = 2 ^ f.fractionBits ∧
        f.leastExponent < exponent ∧ x / 2 ^ exponent < 2 ^ f.fractionBits := by
  rw [lastExponent]
  have h_margin := f.margin_le significand exponent
  have h_high : x / 2 ^ exponent < 2 ^ (f.fractionBits + 1 : ℤ) := by
    have h_lt : (significand : ℚ) + 1 ≤ 2 * 2 ^ f.fractionBits := by
      exact_mod_cast h_finite.significand_lt
    rw [zpow_add_one₀ two_ne_zero, zpow_natCast]
    linarith [h.high]
  rw [← log_lt_iff h_pos] at h_high
  have h_least := h_finite.least_le
  obtain h_eq | h_above := h_least.eq_or_lt
  · left
    omega
  have h_leading : 2 ^ f.fractionBits ≤ significand := h_finite.leading.resolve_right h_above.ne'
  obtain h_normal | h_below := le_or_gt ((2 : ℚ) ^ f.fractionBits) (x / 2 ^ exponent)
  · left
    rw [← zpow_natCast, ← le_log_iff h_pos] at h_normal
    omega
  · right
    have h_significand : significand = 2 ^ f.fractionBits := by
      have h_lt : (significand : ℚ) < 2 ^ f.fractionBits + 1 := by linarith [h.low]
      have h_lt : significand < 2 ^ f.fractionBits + 1 := by exact_mod_cast h_lt
      omega
    have h_half : (2 : ℚ) ^ (f.fractionBits - 1 : ℤ) ≤ x / 2 ^ exponent := by
      have h_one : (1 : ℚ) ≤ 2 ^ f.fractionBits := one_le_pow₀ one_le_two
      rw [zpow_sub_one₀ two_ne_zero, zpow_natCast]
      linarith [h.low_of_power h_significand h_above]
    rw [← zpow_natCast, ← log_lt_iff h_pos] at h_below
    rw [← le_log_iff h_pos] at h_half
    refine ⟨?_, h_significand, h_above, by rwa [← zpow_natCast, ← log_lt_iff h_pos]⟩
    omega

/-- The bits of a fraction when the last digit of its significand has the given exponent. -/
def roundedAt (f : BinaryFormat) (num den : Nat) (exponent : Int) : Nat :=
  f.finiteBits (roundedQuotient (scaled num den exponent).1 (scaled num den exponent).2) exponent

theorem nearest_eq {f : BinaryFormat} {num den : Nat} (h_num : 0 < num) (h_den : 0 < den)
    (negative : Bool) :
    f.nearest negative num den = f.signBit negative +
      min (f.roundedAt num den (f.lastExponent (num / den))) f.infinity := by
  rw [nearest, if_neg (by simpa using h_num.ne'), leadingExponent_eq_log h_num h_den]
  rfl

section Interval

variable {f : BinaryFormat} {significand : Nat} {exponent : Int} {num den : Nat}

theorem roundedAt_exponent (h_den : 0 < den) (h : f.RoundsTo significand exponent (num / den)) :
    f.roundedAt num den exponent = f.finiteBits significand exponent := by
  have h_margin := f.margin_le significand exponent
  rw [roundedAt, roundedQuotient_eq (s := significand) (scaled_den_pos h_den exponent)]
  all_goals rw [scaled_div]
  · linarith [h.low]
  · exact h.high
  · rintro (h_low | h_high)
    · exact h.tie (.inl (by linarith [h.low]))
    · exact h.tie (.inr h_high)

/-- Just below a power of two the significand is rounded up to all its digits and one more. -/
theorem roundedAt_pred (h_den : 0 < den) (h : f.RoundsTo significand exponent (num / den))
    (h_significand : significand = 2 ^ f.fractionBits) (h_above : f.leastExponent < exponent)
    (h_below : (num / den : ℚ) / 2 ^ exponent < 2 ^ f.fractionBits) :
    f.roundedAt num den (exponent - 1) = f.finiteBits significand exponent := by
  have h_low := h.low_of_power h_significand h_above
  have h_scaled := scaled_div num den (exponent - 1)
  rw [zpow_sub_one₀ two_ne_zero, ← div_div, div_inv_eq_mul] at h_scaled
  rw [roundedAt, roundedQuotient_eq (s := 2 * 2 ^ f.fractionBits) (scaled_den_pos h_den _)]
  · have h_toNat : (exponent - f.leastExponent).toNat =
        (exponent - 1 - f.leastExponent).toNat + 1 := by omega
    rw [finiteBits, finiteBits, h_toNat, h_significand]
    ring
  all_goals rw [h_scaled]; push_cast
  · linarith
  · linarith
  · intro _
    exact Nat.mul_mod_right 2 _

/-- Every fraction in the interval around a finite value is rounded to that value. -/
theorem nearest_of_roundsTo (h_num : 0 < num) (h_den : 0 < den)
    (h_finite : f.Finite significand exponent)
    (h_bits : f.finiteBits significand exponent ≤ f.infinity)
    (h : f.RoundsTo significand exponent (num / den)) (negative : Bool) :
    f.nearest negative num den = f.signBit negative + f.finiteBits significand exponent := by
  have h_pos : (0 : ℚ) < num / den := by positivity
  have h_rounded : f.roundedAt num den (f.lastExponent (num / den)) =
      f.finiteBits significand exponent := by
    obtain h_exponent | ⟨h_exponent, h_significand, h_above, h_below⟩ :=
      lastExponent_of_roundsTo h_pos h_finite h
    · rw [h_exponent, roundedAt_exponent h_den h]
    · rw [h_exponent, roundedAt_pred h_den h h_significand h_above h_below]
  rw [nearest_eq h_num h_den, h_rounded, Nat.min_eq_left h_bits]

end Interval

end BinaryFormat
end PropertyText
