/-
  PropertyText.Proofs.Text.Written

  The form of a string in a document: it is the string itself just if that is bare
  (`written_eq_self_iff`), it stands on one line (`newlines_written`), and it is a text if the
  string is one (`isText_written`).
-/
import Mathlib.Data.List.Basic
import PropertyText.Proofs.Text.Utf8
import PropertyText.Text.Written

namespace PropertyText

/-- What holds of the 256 bytes holds of every byte. -/
theorem forall_byte {P : UInt8 → Prop} (h : ∀ n < 256, P (UInt8.ofNat n)) (b : UInt8) : P b := by
  have h_b := h b.toNat b.toNat_lt
  rwa [UInt8.ofNat_toNat] at h_b

/-! ## Quotes -/

theorem length_le_flatMap_escaped (text : Bytes) : text.length ≤ (text.flatMap escaped).length := by
  induction text with
  | nil => exact Nat.le_refl 0
  | cons b text ih =>
    have h_escaped : 0 < (escaped b).length := by
      revert b
      apply forall_byte
      decide +kernel
    rw [List.flatMap_cons, List.length_append, List.length_cons]
    omega

/-- A string is written as it stands just if it is bare, for quotes would make it longer. -/
theorem written_eq_self_iff {text : Bytes} : written text = text ↔ isBare text = true := by
  constructor
  · intro h_same
    by_contra h_bare
    rw [written, if_neg h_bare] at h_same
    have h_length := congrArg List.length h_same
    have h_le := length_le_flatMap_escaped text
    simp only [quoted, List.length_append, List.length_cons, List.length_nil] at h_length
    omega
  · intro h_bare
    exact if_pos h_bare

/-! ## Lines -/

theorem newline_not_mem_escaped (b : UInt8) : Ascii.newline ∉ escaped b := by
  revert b
  apply forall_byte
  decide +kernel

theorem newlines_flatMap_escaped (text : Bytes) : newlines (text.flatMap escaped) = 0 := by
  rw [newlines, List.count_eq_zero, List.mem_flatMap]
  rintro ⟨b, -, h_mem⟩
  exact newline_not_mem_escaped b h_mem

/-- A string is written on one line. -/
theorem newlines_written (text : Bytes) : newlines (written text) = 0 := by
  rw [written]
  split
  · rename_i h_bare
    rw [newlines, List.count_eq_zero]
    intro h_mem
    rw [isBare, Bool.and_eq_true] at h_bare
    have h_newline := List.all_eq_true.mp h_bare.2 _ h_mem
    cases h_newline
  · rw [quoted, newlines_append, ← List.singleton_append, newlines_append,
      newlines_flatMap_escaped]
    rfl

/-! ## Characters -/

namespace Utf8

theorem escaped_of_high {b : UInt8} (h : 0x80 ≤ b) : escaped b = [b] := by
  revert b
  apply forall_byte
  decide +kernel

theorem escaped_of_low {b : UInt8} (h : b < 0x80) : ∀ c ∈ escaped b, c < 0x80 := by
  revert b
  apply forall_byte
  decide +kernel

/-- Only characters of one byte are escaped, so no character is torn apart. -/
theorem isText_flatMap_escaped (chars : List Char) :
    IsText ((chars.flatMap String.utf8EncodeChar).flatMap escaped) := by
  induction chars with
  | nil => exact isText_nil
  | cons c chars ih =>
    rw [List.flatMap_cons, List.flatMap_append]
    refine IsText.append ?_ ih
    rcases utf8EncodeChar_cases c with ⟨b, h_low, -, h_eq⟩ | ⟨-, h_high⟩
    · rw [h_eq, List.flatMap_singleton]
      exact isText_of_forall_lt (escaped_of_low h_low)
    · have h_same : (String.utf8EncodeChar c).flatMap escaped =
          (String.utf8EncodeChar c).flatMap fun b => [b] :=
        List.flatMap_congr fun b h_mem => escaped_of_high (h_high b h_mem)
      rw [h_same, List.flatMap_singleton']
      exact isText_utf8EncodeChar c

theorem isText_written {text : Bytes} (h : IsText text) : IsText (written text) := by
  obtain ⟨text, rfl⟩ := h
  rw [written]
  split
  · exact isText_encode text
  · have h_quote : IsText [Ascii.quote] := isText_of_all_lt rfl
    exact (h_quote.append (isText_flatMap_escaped text.toList)).append h_quote

end Utf8
end PropertyText
