/-
  PropertyText.Proofs.Grammar.Written

  The form in which a writer puts a string is a token of the grammar (`lexeme_written`),
  unless a byte of the string is zero, which no escape can stand for (`fault_written`).
-/
import PropertyText.Proofs.Grammar.Lexeme
import PropertyText.Proofs.Text.Written

namespace PropertyText

namespace Grammar

/-! ## Escapes -/

theorem hexValue?_hexDigit {n : Nat} (h : n < 16) : Ascii.hexValue? (Ascii.hexDigit n) = some n := by
  have h_all : ∀ n < 16, Ascii.hexValue? (Ascii.hexDigit n) = some n := by decide
  exact h_all n h

/-- How a byte is escaped: by a letter, in hexadecimal, or not at all. -/
theorem escaped_cases (b : UInt8) :
    (∃ letter, escaped b = [Ascii.backslash, letter] ∧ (letter, b) ∈ escapeLetters) ∨
      (escaped b = hexEscape b ∧ b < 0x20) ∨
      escaped b = [b] ∧ b ≠ Ascii.quote ∧ b ≠ Ascii.backslash ∧ 0x20 ≤ b := by
  rw [escaped]
  -- Four bytes have a letter of their own; the other control bytes are put in hexadecimal.
  split
  · rename_i h
    obtain rfl := eq_of_beq h
    exact Or.inl ⟨_, rfl, by decide⟩
  split
  · rename_i h
    obtain rfl := eq_of_beq h
    exact Or.inl ⟨_, rfl, by decide⟩
  split
  · rename_i h
    obtain rfl := eq_of_beq h
    exact Or.inl ⟨_, rfl, by decide⟩
  split
  · rename_i h
    obtain rfl := eq_of_beq h
    exact Or.inl ⟨_, rfl, by decide⟩
  rename_i h_backslash h_quote
  split
  · rename_i h
    exact Or.inr (Or.inl ⟨rfl, h⟩)
  · rename_i h
    refine Or.inr (Or.inr ⟨rfl, by simpa using h_quote, by simpa using h_backslash, ?_⟩)
    exact UInt8.not_lt.mp h

/-- An escaped byte is read as the byte, unless it is zero. -/
theorem Quoted.escaped {b : UInt8} {raw text : Bytes} (h : Quoted raw text) (h_b : b ≠ 0) :
    Quoted (escaped b ++ raw) (b :: text) := by
  rcases escaped_cases b with ⟨letter, h_eq, h_mem⟩ | ⟨h_eq, h_low⟩ | ⟨h_eq, h_quote, h_backslash, -⟩
  · rw [h_eq]
    exact .letter h_mem h
  · have h_toNat : b.toNat < 0x20 := UInt8.lt_iff_toNat_lt.mp h_low
    have h_pos : b.toNat ≠ 0 := fun h_zero => h_b (UInt8.toNat_inj.mp h_zero)
    -- The two digits are those of the byte.
    have h_value : 16 * (b.toNat / 16) + b.toNat % 16 = b.toNat := Nat.div_add_mod _ _
    have h_hex := Quoted.hex (hexValue?_hexDigit (by omega : b.toNat / 16 < 16))
      (hexValue?_hexDigit (by omega : b.toNat % 16 < 16)) (by omega) (by omega) h
    rw [h_value, UInt8.ofNat_toNat] at h_hex
    rw [h_eq]
    exact h_hex
  · rw [h_eq]
    exact .plain h_quote h_backslash h

theorem quoted_flatMap {text : Bytes} (h : 0 ∉ text) : Quoted (text.flatMap escaped) text := by
  induction text with
  | nil => exact .nil
  | cons b text ih =>
    obtain ⟨h_b, h_text⟩ := List.ne_and_not_mem_of_not_mem_cons h
    exact (ih h_text).escaped h_b.symm

/-! ## Strings as a writer puts them -/

/-- What a writer puts for a string without a zero byte is a token for the string. -/
theorem lexeme_written {text : Bytes} (h : 0 ∉ text) : Lexeme (.text text) (written text) := by
  rw [written]
  split
  · rename_i h_bare
    exact .bare h_bare
  · exact .quoted (quoted_flatMap h)

theorem isBareByte_head_written (text : Bytes) :
    ∃ b rest, written text = b :: rest ∧ (isBareByte b = true ∨ b = Ascii.quote) := by
  rw [written]
  split
  · rename_i h_bare
    cases text with
    | nil => simp at h_bare
    | cons b rest =>
      rw [isBare_cons, Bool.and_eq_true] at h_bare
      exact ⟨b, rest, rfl, Or.inl h_bare.1⟩
  · exact ⟨Ascii.quote, _, rfl, Or.inr rfl⟩

/-- No written string begins like a byte-order mark. -/
theorem head_written_append (name rest : Bytes) : (written name ++ rest).head? ≠ some 0xef := by
  obtain ⟨b, more, h_written, h_b⟩ := isBareByte_head_written name
  rw [h_written, List.cons_append, List.head?_cons]
  rintro ⟨⟩
  exact absurd h_b (by decide)

/-- A zero byte is put as an escape that is refused. -/
theorem fault_written (comments : Bool) {text : Bytes} (h : 0 ∈ text) :
    ∃ broken more, written text = broken ++ more ∧ newlines broken = 0 ∧
      ∀ rest, Fault comments broken rest .zeroEscape := by
  -- Up to the first zero byte the string is put as it can be read.
  obtain ⟨front, back, rfl, h_front⟩ := List.eq_append_cons_of_mem h
  have h_bare : isBare (front ++ 0 :: back) = false := by
    simp [isBare, show isBareByte 0 = false from rfl]
  have h_zero : escaped 0 = [Ascii.backslash, 0x78, 0x30, 0x30] := by decide
  refine ⟨Ascii.quote :: front.flatMap escaped ++ escaped 0,
    back.flatMap escaped ++ [Ascii.quote], ?_, ?_, fun rest => ?_⟩
  · simp [written, h_bare, quoted]
  · rw [← List.singleton_append, newlines_append, newlines_append, newlines_flatMap_escaped]
    rfl
  · rw [h_zero]
    exact .quoted (quoted_flatMap h_front) (.zero rfl rfl)

end Grammar
end PropertyText
