/-
  PropertyText.Proofs.Text.Utf8

  Characters and their bytes: reading the bytes of a text gives the text back
  (`Utf8.decode_encode`, `Utf8.read_encode`), and a byte below 0x80 is a character in
  itself.  Bytes that are those of some text (`Utf8.IsText`) stay so when texts are put
  together, and when they are cut at such a byte.
-/
import PropertyText.Text.Utf8

namespace PropertyText
namespace Utf8

/-! ## Reading back -/

theorem first?_append (c : Char) (rest : Bytes) :
    first? (String.utf8EncodeChar c ++ rest) = some c := by
  have h_size : (String.utf8EncodeChar c).length ≤ 4 := by
    rw [String.length_utf8EncodeChar]
    exact c.utf8Size_le_four
  rw [first?, List.take_append, List.take_of_length_le h_size, List.toByteArray_append,
    ByteArray.utf8DecodeChar?_utf8EncodeChar_append]

/-- The bytes of a character in front of others are its first byte and some more, of which
as many are taken as the character has. -/
theorem exists_cons_append (c : Char) (rest : Bytes) :
    ∃ b more, String.utf8EncodeChar c ++ rest = b :: more ∧ first? (b :: more) = some c ∧
      (b :: more).drop c.utf8Size = rest := by
  cases h : String.utf8EncodeChar c ++ rest with
  | nil => exact absurd (List.append_eq_nil_iff.mp h).1 String.utf8EncodeChar_ne_nil
  | cons b more =>
    refine ⟨b, more, rfl, h ▸ first?_append c rest, ?_⟩
    rw [← h, ← String.length_utf8EncodeChar, List.drop_left]

theorem decodeOnto_append (read : List Char) (c : Char) (rest : Bytes) :
    decodeOnto read (String.utf8EncodeChar c ++ rest) = decodeOnto (c :: read) rest := by
  obtain ⟨b, more, h_bytes, h_first, h_drop⟩ := exists_cons_append c rest
  rw [h_bytes, decodeOnto, h_first]
  dsimp only
  rw [h_drop]

theorem decodeOnto_flatMap (read chars : List Char) :
    decodeOnto read (chars.flatMap String.utf8EncodeChar) = read.reverse ++ chars := by
  induction chars generalizing read with
  | nil => rw [List.flatMap_nil, decodeOnto, List.append_nil]
  | cons c chars ih => rw [List.flatMap_cons, decodeOnto_append, ih]; simp

/-- The bytes of a text are read as the text. -/
theorem decode_encode (text : String) : decode (encode text) = text := by
  rw [decode, encode, decodeOnto_flatMap]
  simp

theorem readOnto_append (read : List Char) (index : Nat) (c : Char) (rest : Bytes) :
    readOnto read index (String.utf8EncodeChar c ++ rest) =
      readOnto (c :: read) (index + c.utf8Size) rest := by
  obtain ⟨b, more, h_bytes, h_first, h_drop⟩ := exists_cons_append c rest
  rw [h_bytes, readOnto, h_first]
  dsimp only
  rw [h_drop]

theorem readOnto_flatMap (read chars : List Char) (index : Nat) :
    readOnto read index (chars.flatMap String.utf8EncodeChar) =
      .ok (String.ofList (read.reverse ++ chars)) := by
  induction chars generalizing read index with
  | nil => rw [List.flatMap_nil, readOnto, List.append_nil]
  | cons c chars ih => rw [List.flatMap_cons, readOnto_append, ih]; simp

/-- Nothing in the bytes of a text is broken. -/
theorem read_encode (text : String) : read (encode text) = .ok text := by
  rw [read, encode, readOnto_flatMap]
  simp

/-! ## The bytes of a character -/

/-- A byte below 0x80 is a character. -/
theorem utf8EncodeChar_ofNat {b : UInt8} (h : b < 0x80) :
    String.utf8EncodeChar (Char.ofNat b.toNat) = [b] := by
  have h_all : ∀ n < 0x80, String.utf8EncodeChar (Char.ofNat n) = [UInt8.ofNat n] := by decide
  rw [h_all b.toNat (UInt8.lt_iff_toNat_lt.mp h), UInt8.ofNat_toNat]

/-- A character is one byte below 0x80, or several bytes none of which is below. -/
theorem utf8EncodeChar_cases (c : Char) :
    (∃ b, b < 0x80 ∧ b.toNat = c.toNat ∧ String.utf8EncodeChar c = [b]) ∨
      0x80 ≤ c.toNat ∧ ∀ b ∈ String.utf8EncodeChar c, 0x80 ≤ b := by
  by_cases h : c.toNat ≤ 0x7f
  · have h_toNat : (UInt8.ofNat c.toNat).toNat = c.toNat := by
      rw [UInt8.toNat_ofNat']
      omega
    refine Or.inl ⟨UInt8.ofNat c.toNat, ?_, h_toNat, if_pos h⟩
    rw [UInt8.lt_iff_toNat_lt, h_toNat]
    exact Nat.lt_succ_of_le h
  · refine Or.inr ⟨by omega, fun b h_mem => ?_⟩
    -- Leading bytes have the bits 0xc0 set, and the others the bit 0x80.
    have h_high : ∀ n, 0x80 ≤ n → n < 0x100 → 0x80 ≤ UInt8.ofNat n := by
      intro n h_low h_high
      rw [UInt8.le_iff_toNat_le, UInt8.toNat_ofNat', Nat.mod_eq_of_lt h_high]
      exact h_low
    unfold String.utf8EncodeChar at h_mem
    dsimp only at h_mem
    rw [if_neg (show ¬c.val.toNat ≤ 0x7f from h)] at h_mem
    split at h_mem
    · simp only [List.mem_cons, List.not_mem_nil, or_false] at h_mem
      rcases h_mem with rfl | rfl
      all_goals exact h_high _ (by omega) (by omega)
    · split at h_mem
      · simp only [List.mem_cons, List.not_mem_nil, or_false] at h_mem
        rcases h_mem with rfl | rfl | rfl
        all_goals exact h_high _ (by omega) (by omega)
      · simp only [List.mem_cons, List.not_mem_nil, or_false] at h_mem
        rcases h_mem with rfl | rfl | rfl | rfl
        all_goals exact h_high _ (by omega) (by omega)

/-- A byte below 0x80 stands in the bytes of a text where its character stands in the text. -/
theorem mem_encode {b : UInt8} (h : b < 0x80) (text : String) :
    b ∈ encode text ↔ Char.ofNat b.toNat ∈ text.toList := by
  rw [encode, List.mem_flatMap]
  constructor
  · rintro ⟨c, h_mem, h_b⟩
    rcases utf8EncodeChar_cases c with ⟨b', -, h_toNat, h_eq⟩ | ⟨-, h_high⟩
    · rw [h_eq, List.mem_singleton] at h_b
      rw [h_b, h_toNat, Char.ofNat_toNat]
      exact h_mem
    · have h_le := h_high b h_b
      rw [UInt8.le_iff_toNat_le] at h_le
      rw [UInt8.lt_iff_toNat_lt] at h
      omega
  · intro h_mem
    refine ⟨_, h_mem, ?_⟩
    rw [utf8EncodeChar_ofNat h]
    exact List.mem_singleton_self b

/-! ## Bytes that are a text -/

/-- The bytes are those of some text. -/
def IsText (bytes : Bytes) : Prop := ∃ text, encode text = bytes

theorem isText_encode (text : String) : IsText (encode text) := ⟨text, rfl⟩

theorem isText_nil : IsText [] := ⟨"", encode_empty⟩

theorem IsText.append {a b : Bytes} (h_a : IsText a) (h_b : IsText b) : IsText (a ++ b) := by
  obtain ⟨s, rfl⟩ := h_a
  obtain ⟨t, rfl⟩ := h_b
  exact ⟨s ++ t, encode_append s t⟩

theorem isText_utf8EncodeChar (c : Char) : IsText (String.utf8EncodeChar c) :=
  ⟨String.singleton c, by simp [encode]⟩

/-- Bytes below 0x80 are a text. -/
theorem isText_of_forall_lt {bytes : Bytes} (h : ∀ b ∈ bytes, b < 0x80) : IsText bytes := by
  induction bytes with
  | nil => exact isText_nil
  | cons b bytes ih =>
    have h_b := h b List.mem_cons_self
    have h_head : IsText [b] := utf8EncodeChar_ofNat h_b ▸ isText_utf8EncodeChar _
    exact h_head.append (ih fun b h_mem => h b (List.mem_cons_of_mem _ h_mem))

theorem isText_of_all_lt {bytes : Bytes} (h : bytes.all (· < 0x80) = true) : IsText bytes := by
  apply isText_of_forall_lt
  intro b h_mem
  exact of_decide_eq_true (List.all_eq_true.mp h b h_mem)

/-- A text that is cut at a byte below 0x80 falls into texts. -/
theorem IsText.parts {a rest : Bytes} {b : UInt8} (h : IsText (a ++ b :: rest)) (h_b : b < 0x80) :
    IsText a ∧ IsText rest := by
  obtain ⟨text, h_bytes⟩ := h
  rw [encode] at h_bytes
  -- Induction on the characters: the byte stands in the first of them, or behind it.
  generalize text.toList = chars at h_bytes
  induction chars generalizing a with
  | nil => simp at h_bytes
  | cons c chars ih =>
    rw [List.flatMap_cons] at h_bytes
    rcases List.append_eq_append_iff.mp h_bytes with ⟨more, rfl, h_more⟩ | ⟨more, h_char, h_rest⟩
    · obtain ⟨h_front, h_back⟩ := ih h_more
      exact ⟨(isText_utf8EncodeChar c).append h_front, h_back⟩
    · cases more with
      | nil =>
        obtain ⟨-, h_back⟩ := ih (a := []) h_rest.symm
        rw [List.append_nil] at h_char
        exact ⟨h_char ▸ isText_utf8EncodeChar c, h_back⟩
      | cons b' more =>
        obtain ⟨rfl, rfl⟩ := List.cons.inj h_rest
        -- A byte below 0x80 makes up its character alone.
        rcases utf8EncodeChar_cases c with ⟨first, -, -, h_one⟩ | ⟨-, h_high⟩
        · rw [h_one] at h_char
          obtain ⟨rfl, h_more⟩ | ⟨-, h_more⟩ := List.singleton_eq_append_iff.mp h_char
          · obtain ⟨-, rfl⟩ := List.cons.inj h_more
            exact ⟨isText_nil, ⟨String.ofList chars, by simp [encode]⟩⟩
          · cases h_more
        · have h_le := h_high b (h_char ▸ List.mem_append_right a List.mem_cons_self)
          rw [UInt8.le_iff_toNat_le] at h_le
          rw [UInt8.lt_iff_toNat_lt] at h_b
          omega

theorem IsText.tail {rest : Bytes} {b : UInt8} (h : IsText (b :: rest)) (h_b : b < 0x80) :
    IsText rest :=
  (IsText.parts (a := []) h h_b).2

/-- The bytes of a text are read without loss. -/
theorem IsText.encode_decode {bytes : Bytes} (h : IsText bytes) : encode (decode bytes) = bytes := by
  obtain ⟨text, rfl⟩ := h
  rw [decode_encode]

end Utf8
end PropertyText
