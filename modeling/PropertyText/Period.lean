/-
  PropertyText.Period

  Events that fall on every so many-th request.
-/

namespace PropertyText

/-- Whether the request of a number falls on a period; a period of zero never comes. -/
def fallsOn (period number : Nat) : Bool := period != 0 && number % period == 0

/-- No two requests in a row fall on a period of more than one. -/
theorem fallsOn_succ {period number : Nat} (h : fallsOn period number = true)
    (h_period : period ≠ 1) : fallsOn period (number + 1) = false := by
  simp only [fallsOn, Bool.and_eq_true, bne_iff_ne, ne_eq, beq_iff_eq] at h
  -- A multiple of the period is followed by a number with the remainder one.
  have h_mod : (number + 1) % period = 1 := by
    rw [Nat.add_mod, h.2, Nat.zero_add, Nat.mod_mod]
    exact Nat.mod_eq_of_lt (by omega)
  simp [fallsOn, h_mod]

end PropertyText
