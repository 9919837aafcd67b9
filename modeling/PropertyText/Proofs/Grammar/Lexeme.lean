/-
  PropertyText.Proofs.Grammar.Lexeme

  The tokens of the format as texts, without a machine that reads them: what may stand
  between two tokens (`Separator`), the texts of a token (`Lexeme`), sequences of tokens
  with a bare string taken as long as possible (`Tokens`), and the texts that are no token
  (`Fault`).  Every text is a sequence of tokens up to its end or up to a fault
  (`exists_tokens`).
-/
import PropertyText.Token

namespace PropertyText
namespace Grammar

/-! ## Between tokens -/

/-- Text between tokens: blanks, and comments where they are allowed. -/
inductive Separator (comments : Bool) : Bytes → Prop
  | nil : Separator comments []
  | blank {b : UInt8} {text : Bytes} :
      Ascii.isBlank b = true → Separator comments text → Separator comments (b :: text)
  | comment {words text : Bytes} :
      comments = true → Ascii.newline ∉ words → Separator comments text →
      Separator comments (Ascii.slash :: Ascii.slash :: words ++ Ascii.newline :: text)

/-- Text behind the last token, where a comment need not end its line. -/
inductive Trailer (comments : Bool) : Bytes → Prop
  | separator {text : Bytes} : Separator comments text → Trailer comments text
  | comment {text words : Bytes} :
      comments = true → Separator comments text → Ascii.newline ∉ words →
      Trailer comments (text ++ Ascii.slash :: Ascii.slash :: words)

/-! ## Tokens -/

/-- The letters that may follow a backslash, with the bytes for which they stand. -/
def escapeLetters : List (UInt8 × UInt8) :=
  [(0x6e, Ascii.newline), (0x74, Ascii.tab), (0x72, Ascii.carriageReturn), (0x61, Ascii.bell),
    (0x62, Ascii.backspace), (Ascii.backslash, Ascii.backslash), (Ascii.quote, Ascii.quote)]

/-- What stands between quotes, with the text that is meant. -/
inductive Quoted : Bytes → Bytes → Prop
  | nil : Quoted [] []
  | plain {b : UInt8} {raw text : Bytes} :
      b ≠ Ascii.quote → b ≠ Ascii.backslash → Quoted raw text → Quoted (b :: raw) (b :: text)
  | letter {letter b : UInt8} {raw text : Bytes} :
      (letter, b) ∈ escapeLetters → Quoted raw text →
      Quoted (Ascii.backslash :: letter :: raw) (b :: text)
  | hex {high low : UInt8} {h l : Nat} {raw text : Bytes} :
      Ascii.hexValue? high = some h → Ascii.hexValue? low = some l →
      0x01 ≤ 16 * h + l → 16 * h + l ≤ 0x1f → Quoted raw text →
      Quoted (Ascii.backslash :: 0x78 :: high :: low :: raw) (UInt8.ofNat (16 * h + l) :: text)

/-- The texts of a token. -/
inductive Lexeme : Token → Bytes → Prop
  | colon : Lexeme .colon [Ascii.colon]
  | openBrace : Lexeme .openBrace [Ascii.openBrace]
  | closeBrace : Lexeme .closeBrace [Ascii.closeBrace]
  | bare {text : Bytes} : isBare text = true → Lexeme (.text text) text
  | quoted {raw text : Bytes} :
      Quoted raw text → Lexeme (.text text) (Ascii.quote :: raw ++ [Ascii.quote])

/-- A bare string goes on as long as it can: no byte of the kind follows it. -/
def Maximal (raw rest : Bytes) : Prop :=
  isBare raw = true → ∀ b ∈ rest.head?, isBareByte b = false

/-- A text that holds a sequence of tokens, given what stands behind it. -/
inductive Tokens (comments : Bool) : Bytes → List Token → Bytes → Prop
  | nil {rest : Bytes} : Tokens comments [] [] rest
  | cons {separator raw text rest : Bytes} {token : Token} {tokens : List Token} :
      Separator comments separator → Lexeme token raw → Maximal raw (text ++ rest) →
      Tokens comments text tokens rest →
      Tokens comments (separator ++ raw ++ text) (token :: tokens) rest

/-! ## Faults -/

/-- A byte with which neither a token nor anything between tokens begins. -/
def Stray (comments : Bool) (b : UInt8) : Prop :=
  (∀ token raw, ¬Lexeme token (b :: raw)) ∧ ∀ text, ¬Trailer comments (b :: text)

/-- The end of a quoted string that has gone wrong, what stands behind it, and why. -/
inductive BrokenQuote : Bytes → Bytes → Malformation → Prop
  | unknownEscape {letter : UInt8} {rest : Bytes} :
      letter ∉ escapeLetters.map Prod.fst → letter ≠ 0x78 →
      BrokenQuote [Ascii.backslash, letter] rest (.unknownEscape letter)
  | badHigh {high : UInt8} {rest : Bytes} : Ascii.hexValue? high = none →
      BrokenQuote [Ascii.backslash, 0x78, high] rest .badHex
  | badLow {high low : UInt8} {h : Nat} {rest : Bytes} :
      Ascii.hexValue? high = some h → Ascii.hexValue? low = none →
      BrokenQuote [Ascii.backslash, 0x78, high, low] rest .badHex
  | zero {high low : UInt8} {rest : Bytes} :
      Ascii.hexValue? high = some 0 → Ascii.hexValue? low = some 0 →
      BrokenQuote [Ascii.backslash, 0x78, high, low] rest .zeroEscape
  | printable {high low : UInt8} {h l : Nat} {rest : Bytes} :
      Ascii.hexValue? high = some h → Ascii.hexValue? low = some l → 0x20 ≤ 16 * h + l →
      BrokenQuote [Ascii.backslash, 0x78, high, low] rest .printableEscape
  | ended : BrokenQuote [] [] .unexpectedEnd
  | endedEscape : BrokenQuote [Ascii.backslash] [] .unexpectedEnd
  | endedHex : BrokenQuote [Ascii.backslash, 0x78] [] .unexpectedEnd
  | endedLow {high : UInt8} {h : Nat} : Ascii.hexValue? high = some h →
      BrokenQuote [Ascii.backslash, 0x78, high] [] .unexpectedEnd

/-- A text up to the byte that shows that no token begins with it, what stands behind it,
and why. -/
inductive Fault (comments : Bool) : Bytes → Bytes → Malformation → Prop
  | stray {b : UInt8} {rest : Bytes} : Stray comments b → Fault comments [b] rest .strayByte
  | slash {b : UInt8} {rest : Bytes} :
      comments = true → b ≠ Ascii.slash → Fault comments [Ascii.slash, b] rest .loneSlash
  | endedSlash : comments = true → Fault comments [Ascii.slash] [] .loneSlash
  | quoted {raw text part rest : Bytes} {cause : Malformation} :
      Quoted raw text → BrokenQuote part rest cause →
      Fault comments (Ascii.quote :: raw ++ part) rest cause

/-! ## The start of a document -/

/-- What stands in front of the first token: a byte-order mark, or nothing, where the text
does not begin like one. -/
inductive Opening : Bytes → Bytes → Prop
  | mark {text : Bytes} : Opening [0xef, 0xbb, 0xbf] text
  | none {text : Bytes} : text.head? ≠ some 0xef → Opening [] text

/-- A byte-order mark up to the byte that does not belong there, and what stands behind. -/
inductive BrokenMark : Bytes → Bytes → Prop
  | second {b : UInt8} {rest : Bytes} : b ≠ 0xbb → BrokenMark [0xef, b] rest
  | third {b : UInt8} {rest : Bytes} : b ≠ 0xbf → BrokenMark [0xef, 0xbb, b] rest
  | ended : BrokenMark [0xef] []
  | endedSecond : BrokenMark [0xef, 0xbb] []

theorem exists_opening (whole : Bytes) :
    (∃ front text, whole = front ++ text ∧ Opening front text) ∨
      ∃ broken rest, whole = broken ++ rest ∧ BrokenMark broken rest := by
  by_cases h_first : whole.head? = some 0xef
  · obtain ⟨text, rfl⟩ := List.head?_eq_some_iff.mp h_first
    match text with
    | [] => exact Or.inr ⟨_, [], rfl, .ended⟩
    | second :: text =>
      by_cases h_second : second = 0xbb
      · subst h_second
        match text with
        | [] => exact Or.inr ⟨_, [], rfl, .endedSecond⟩
        | third :: text =>
          by_cases h_third : third = 0xbf
          · subst h_third
            exact Or.inl ⟨_, text, rfl, .mark⟩
          · exact Or.inr ⟨_, text, rfl, .third h_third⟩
      · exact Or.inr ⟨_, text, rfl, .second h_second⟩
  · exact Or.inl ⟨[], whole, rfl, .none h_first⟩

/-! ## How texts begin -/

section

variable {comments : Bool} {b : UInt8} {text raw rest : Bytes} {token : Token}

theorem head_of_separator (h : Separator comments (b :: text)) :
    Ascii.isBlank b = true ∨ comments = true ∧ b = Ascii.slash := by
  cases h with
  | blank h_blank _ => exact Or.inl h_blank
  | comment h_comments _ _ => exact Or.inr ⟨h_comments, rfl⟩

theorem head_of_trailer (h : Trailer comments (b :: text)) :
    Ascii.isBlank b = true ∨ comments = true ∧ b = Ascii.slash := by
  -- The two parts of a trailer do not show its first byte, so it is kept as an equation.
  generalize h_text : b :: text = whole at h
  cases h with
  | separator h_separator =>
    subst h_text
    exact head_of_separator h_separator
  | @comment front words h_comments h_separator _ =>
    cases front with
    | nil => exact Or.inr ⟨h_comments, (List.cons.inj h_text).1⟩
    | cons c front =>
      obtain ⟨rfl, -⟩ := List.cons.inj h_text
      exact head_of_separator h_separator

theorem head_of_lexeme (h : Lexeme token (b :: raw)) :
    b = Ascii.colon ∨ b = Ascii.openBrace ∨ b = Ascii.closeBrace ∨ b = Ascii.quote ∨
      isBareByte b = true := by
  generalize h_raw : b :: raw = whole at h
  cases h with
  | colon => exact Or.inl (List.cons.inj h_raw).1
  | openBrace => exact Or.inr (Or.inl (List.cons.inj h_raw).1)
  | closeBrace => exact Or.inr (Or.inr (Or.inl (List.cons.inj h_raw).1))
  | quoted _ => exact Or.inr (Or.inr (Or.inr (Or.inl (List.cons.inj h_raw).1)))
  | bare h_bare =>
    subst h_raw
    rw [isBare_cons, Bool.and_eq_true] at h_bare
    exact Or.inr (Or.inr (Or.inr (Or.inr h_bare.1)))

/-- A byte begins a token, or something between tokens, or nothing at all. -/
theorem stray_iff :
    Stray comments b ↔
      Ascii.isBlank b = false ∧ ¬(comments = true ∧ b = Ascii.slash) ∧ b ≠ Ascii.colon ∧
        b ≠ Ascii.openBrace ∧ b ≠ Ascii.closeBrace ∧ b ≠ Ascii.quote ∧ isBareByte b = false := by
  constructor
  · rintro ⟨h_lexeme, h_trailer⟩
    -- Of each kind of byte there is a short text that begins with it.
    refine ⟨?_, ?_, ?_, ?_, ?_, ?_, ?_⟩
    · exact Bool.eq_false_iff.mpr fun h => h_trailer [] (.separator (.blank h .nil))
    · rintro ⟨h, rfl⟩
      exact h_trailer [Ascii.slash] (.comment h .nil List.not_mem_nil)
    · rintro rfl
      exact h_lexeme _ _ .colon
    · rintro rfl
      exact h_lexeme _ _ .openBrace
    · rintro rfl
      exact h_lexeme _ _ .closeBrace
    · rintro rfl
      exact h_lexeme _ _ (.quoted .nil)
    · exact Bool.eq_false_iff.mpr fun h => h_lexeme _ [] (.bare (by simp [h]))
  · rintro ⟨h_blank, h_slash, h_colon, h_open, h_close, h_quote, h_bare⟩
    refine ⟨?_, ?_⟩
    · intro token raw h
      rcases head_of_lexeme h with h | h | h | h | h
      · exact h_colon h
      · exact h_open h
      · exact h_close h
      · exact h_quote h
      · simp [h_bare] at h
    · intro text h
      rcases head_of_trailer h with h | h
      · simp [h_blank] at h
      · exact h_slash h

end

/-! ## Every text is read in one way or another -/

section

variable {comments : Bool}

/-- Behind `\x` stands a control byte other than zero, or a fault. -/
theorem hex_cases (whole : Bytes) :
    (∃ high low h l rest, whole = high :: low :: rest ∧ Ascii.hexValue? high = some h ∧
        Ascii.hexValue? low = some l ∧ 0x01 ≤ 16 * h + l ∧ 16 * h + l ≤ 0x1f) ∨
      ∃ part rest cause, whole = part ++ rest ∧
        BrokenQuote (Ascii.backslash :: 0x78 :: part) rest cause := by
  match whole with
  | [] => exact Or.inr ⟨[], [], _, rfl, .endedHex⟩
  | [high] =>
    cases h_high : Ascii.hexValue? high with
    | none => exact Or.inr ⟨[high], [], _, rfl, .badHigh h_high⟩
    | some h => exact Or.inr ⟨[high], [], _, rfl, .endedLow h_high⟩
  | high :: low :: rest =>
    cases h_high : Ascii.hexValue? high with
    | none => exact Or.inr ⟨[high], low :: rest, _, rfl, .badHigh h_high⟩
    | some h =>
      cases h_low : Ascii.hexValue? low with
      | none => exact Or.inr ⟨[high, low], rest, _, rfl, .badLow h_high h_low⟩
      | some l =>
        by_cases h_zero : 16 * h + l = 0
        · obtain ⟨rfl, rfl⟩ : h = 0 ∧ l = 0 := by omega
          exact Or.inr ⟨[high, low], rest, _, rfl, .zero h_high h_low⟩
        by_cases h_control : 16 * h + l ≤ 0x1f
        · exact Or.inl ⟨high, low, h, l, rest, rfl, h_high, h_low, by omega, h_control⟩
        · exact Or.inr ⟨[high, low], rest, _, rfl, .printable h_high h_low (by omega)⟩

/-- Behind a backslash stands the rest of an escape, or a fault. -/
theorem escape_cases (whole : Bytes) :
    (∃ escape b rest, whole = escape ++ rest ∧ ∀ raw text, Quoted raw text →
        Quoted (Ascii.backslash :: escape ++ raw) (b :: text)) ∨
      ∃ part rest cause, whole = part ++ rest ∧
        BrokenQuote (Ascii.backslash :: part) rest cause := by
  match whole with
  | [] => exact Or.inr ⟨[], [], _, rfl, .endedEscape⟩
  | letter :: rest =>
    by_cases h_letter : letter ∈ escapeLetters.map Prod.fst
    · obtain ⟨⟨letter, b⟩, h_mem, rfl⟩ := List.mem_map.mp h_letter
      exact Or.inl ⟨[letter], b, rest, rfl, fun _ _ => .letter h_mem⟩
    by_cases h_hex : letter = 0x78
    · subst h_hex
      rcases hex_cases rest with
        ⟨high, low, h, l, rest, rfl, h_high, h_low, h_zero, h_control⟩ | ⟨part, rest, cause, rfl, h⟩
      · exact Or.inl ⟨[0x78, high, low], _, rest, rfl,
          fun _ _ => .hex h_high h_low h_zero h_control⟩
      · exact Or.inr ⟨0x78 :: part, rest, cause, rfl, h⟩
    · exact Or.inr ⟨[letter], rest, _, rfl, .unknownEscape h_letter h_hex⟩

/-- What stands behind an opening quote goes on up to the closing one or to a fault. -/
theorem exists_quoted (whole : Bytes) :
    ∃ raw text rest, whole = raw ++ rest ∧ Quoted raw text ∧
      ((∃ behind, rest = Ascii.quote :: behind) ∨
        ∃ part behind cause, rest = part ++ behind ∧ BrokenQuote part behind cause) := by
  match whole with
  | [] => exact ⟨[], [], [], rfl, .nil, Or.inr ⟨[], [], _, rfl, .ended⟩⟩
  | b :: more =>
    by_cases h_quote : b = Ascii.quote
    · exact ⟨[], [], _, rfl, .nil, Or.inl ⟨more, by rw [h_quote]⟩⟩
    by_cases h_backslash : b = Ascii.backslash
    · subst h_backslash
      rcases escape_cases more with
        ⟨escape, c, behind, h_more, h_escape⟩ | ⟨part, behind, cause, rfl, h⟩
      -- The escape is stepped over as a whole, and what follows it is shorter.
      · obtain ⟨raw, text, rest, rfl, h_raw, h_rest⟩ := exists_quoted behind
        exact ⟨_, c :: text, rest, by simp [h_more], h_escape raw text h_raw, h_rest⟩
      · exact ⟨[], [], _, rfl, .nil, Or.inr ⟨_, behind, cause, rfl, h⟩⟩
    · obtain ⟨raw, text, rest, rfl, h_raw, h_rest⟩ := exists_quoted more
      exact ⟨b :: raw, b :: text, rest, rfl, .plain h_quote h_backslash h_raw, h_rest⟩
termination_by whole.length
decreasing_by
  · simp only [h_more, List.length_append, List.length_cons]
    omega
  · simp

/-- The separator at the front of a text, taken as long as possible. -/
theorem exists_separator (comments : Bool) (whole : Bytes) :
    ∃ separator rest, whole = separator ++ rest ∧ Separator comments separator ∧
      ∀ b more, rest = b :: more → Ascii.isBlank b = false ∧
        (comments = true → b = Ascii.slash → ∀ words, more = Ascii.slash :: words →
          Ascii.newline ∉ words) := by
  match whole with
  | [] => exact ⟨[], [], rfl, .nil, by simp⟩
  | b :: more =>
    by_cases h_blank : Ascii.isBlank b = true
    · obtain ⟨separator, rest, rfl, h_separator, h_rest⟩ := exists_separator comments more
      exact ⟨b :: separator, rest, rfl, .blank h_blank h_separator, h_rest⟩
    -- A comment belongs to the separator only if its line ends; else it is a trailer.
    by_cases h_comment : comments = true ∧ b = Ascii.slash ∧ ∃ words, more = Ascii.slash :: words ∧
        Ascii.newline ∈ words
    · obtain ⟨h_comments, rfl, text, h_more, h_newline⟩ := h_comment
      obtain ⟨words, behind, h_text, h_words⟩ := List.eq_append_cons_of_mem h_newline
      obtain ⟨separator, rest, rfl, h_separator, h_rest⟩ := exists_separator comments behind
      exact ⟨_, rest, by simp [h_more, h_text], .comment h_comments h_words h_separator, h_rest⟩
    · refine ⟨[], b :: more, rfl, .nil, ?_⟩
      intro c behind h_eq
      obtain ⟨rfl, rfl⟩ := List.cons.inj h_eq
      refine ⟨Bool.eq_false_iff.mpr h_blank, ?_⟩
      intro h_comments h_slash words h_words h_newline
      exact h_comment ⟨h_comments, h_slash, words, h_words, h_newline⟩
termination_by whole.length
decreasing_by
  · simp
  · simp only [h_more, h_text, List.length_append, List.length_cons]
    omega

/-- Where neither a blank nor a comment stands, there is a token or a fault. -/
theorem lexeme_cases {b : UInt8} {more : Bytes} (h_blank : Ascii.isBlank b = false)
    (h_comment : comments = true → b = Ascii.slash → more.head? ≠ some Ascii.slash) :
    (∃ token raw rest, b :: more = raw ++ rest ∧ Lexeme token raw ∧ raw ≠ [] ∧
        Maximal raw rest) ∨
      ∃ broken rest cause, b :: more = broken ++ rest ∧ Fault comments broken rest cause := by
  by_cases h_slash : comments = true ∧ b = Ascii.slash
  · obtain ⟨h_comments, rfl⟩ := h_slash
    match more with
    | [] => exact Or.inr ⟨_, [], _, rfl, .endedSlash h_comments⟩
    | c :: more =>
      have h_second : c ≠ Ascii.slash := by simpa using h_comment h_comments rfl
      exact Or.inr ⟨_, more, _, rfl, .slash h_comments h_second⟩
  by_cases h_quote : b = Ascii.quote
  · subst h_quote
    obtain ⟨raw, text, rest, rfl, h_raw, ⟨behind, rfl⟩ | ⟨part, behind, cause, rfl, h_part⟩⟩ :=
      exists_quoted more
    · refine Or.inl ⟨_, Ascii.quote :: raw ++ [Ascii.quote], behind, by simp, .quoted h_raw,
        List.cons_ne_nil _ _, ?_⟩
      exact fun h_bare => absurd h_bare (by simp [show isBareByte Ascii.quote = false from rfl])
    · exact Or.inr ⟨_, behind, cause, by simp, .quoted h_raw h_part⟩
  by_cases h_bare : isBareByte b = true
  -- A bare string is taken as long as it goes.
  · refine Or.inl ⟨_, (b :: more).takeWhile isBareByte, (b :: more).dropWhile isBareByte,
      List.takeWhile_append_dropWhile.symm, .bare ?_, ?_, fun _ c h_mem => ?_⟩
    · simp [h_bare]
    · simp [h_bare]
    · have h_head := List.head?_dropWhile_not isBareByte (b :: more)
      rw [Option.mem_def.mp h_mem] at h_head
      simpa using h_head
  -- What is left are the three marks, each a token in itself.
  have h_mark (token : Token) (h : Lexeme token [b]) : ∃ token raw rest, b :: more = raw ++ rest ∧
      Lexeme token raw ∧ raw ≠ [] ∧ Maximal raw rest :=
    ⟨token, [b], more, rfl, h, List.cons_ne_nil _ _, fun h_one => absurd h_one (by simp [h_bare])⟩
  by_cases h_colon : b = Ascii.colon
  · exact Or.inl (h_mark .colon (h_colon ▸ .colon))
  by_cases h_open : b = Ascii.openBrace
  · exact Or.inl (h_mark .openBrace (h_open ▸ .openBrace))
  by_cases h_close : b = Ascii.closeBrace
  · exact Or.inl (h_mark .closeBrace (h_close ▸ .closeBrace))
  have h_stray : Stray comments b := stray_iff.mpr
    ⟨h_blank, h_slash, h_colon, h_open, h_close, h_quote, Bool.eq_false_iff.mpr h_bare⟩
  exact Or.inr ⟨[b], more, _, rfl, .stray h_stray⟩

/-- A text has no token up to its end, or begins with one, or has a fault before it. -/
theorem exists_lexeme (comments : Bool) (whole : Bytes) :
    Trailer comments whole ∨
      (∃ separator token raw rest, whole = separator ++ raw ++ rest ∧
        Separator comments separator ∧ Lexeme token raw ∧ raw ≠ [] ∧ Maximal raw rest) ∨
      ∃ separator broken rest cause, whole = separator ++ broken ++ rest ∧
        Separator comments separator ∧ Fault comments broken rest cause := by
  obtain ⟨separator, rest, rfl, h_separator, h_rest⟩ :=
    exists_separator comments whole
  match rest with
  | [] =>
    rw [List.append_nil]
    exact Or.inl (.separator h_separator)
  | b :: more =>
    obtain ⟨h_blank, h_words⟩ := h_rest b more rfl
    by_cases h_comment : comments = true ∧ b = Ascii.slash ∧ more.head? = some Ascii.slash
    · obtain ⟨h_comments, rfl, h_head⟩ := h_comment
      obtain ⟨words, rfl⟩ := List.head?_eq_some_iff.mp h_head
      exact Or.inl (.comment h_comments h_separator (h_words h_comments rfl words rfl))
    have h_none : comments = true → b = Ascii.slash → more.head? ≠ some Ascii.slash :=
      fun h_comments h_slash h_head => h_comment ⟨h_comments, h_slash, h_head⟩
    rcases lexeme_cases h_blank h_none with
      ⟨token, raw, rest, h_eq, h⟩ | ⟨broken, rest, cause, h_eq, h⟩
    · exact Or.inr (Or.inl ⟨separator, token, raw, rest, by simp [h_eq], h_separator, h⟩)
    · exact Or.inr (Or.inr ⟨separator, broken, rest, cause, by simp [h_eq], h_separator, h⟩)

/-- Every text is a sequence of tokens up to its end or up to a fault. -/
theorem exists_tokens (comments : Bool) (whole : Bytes) :
    ∃ text tokens rest, whole = text ++ rest ∧ Tokens comments text tokens rest ∧
      (Trailer comments rest ∨
        ∃ separator broken behind cause, rest = separator ++ broken ++ behind ∧
          Separator comments separator ∧ Fault comments broken behind cause) := by
  rcases exists_lexeme comments whole with
    h_end | ⟨separator, token, raw, rest, h_whole, h_separator, h_lexeme, h_raw, h_maximal⟩ | h_fault
  · exact ⟨[], [], whole, rfl, .nil, Or.inl h_end⟩
  -- A token takes at least one byte, so what is behind it is shorter.
  · have h_pos := List.length_pos_iff.mpr h_raw
    obtain ⟨text, tokens, behind, rfl, h_tokens, h_behind⟩ := exists_tokens comments rest
    exact ⟨_, _, behind, by simp [h_whole], .cons h_separator h_lexeme h_maximal h_tokens, h_behind⟩
  · exact ⟨[], [], whole, rfl, .nil, Or.inr h_fault⟩
termination_by whole.length
decreasing_by
  simp only [h_whole, List.length_append]
  omega

/-- The tokens of a sequence can be parted anywhere, and its text is parted with them. -/
theorem Tokens.exists_append {text rest : Bytes} {first second : List Token}
    (h : Tokens comments text (first ++ second) rest) :
    ∃ front back, text = front ++ back ∧ Tokens comments front first (back ++ rest) ∧
      Tokens comments back second rest := by
  induction first generalizing text with
  | nil => exact ⟨[], text, rfl, .nil, h⟩
  | cons token first ih =>
    cases h with
    | cons h_separator h_lexeme h_maximal h_tokens =>
      obtain ⟨front, back, rfl, h_front, h_back⟩ := ih h_tokens
      -- What follows the token stays the same, so a bare one still ends where it did.
      rw [List.append_assoc] at h_maximal
      exact ⟨_, back, by simp, .cons h_separator h_lexeme h_maximal h_front, h_back⟩

/-- The last token of a sequence ends its text. -/
theorem Tokens.exists_last {text rest : Bytes} {tokens : List Token} {token : Token}
    (h : Tokens comments text (tokens ++ [token]) rest) :
    ∃ front raw, text = front ++ raw ∧ Lexeme token raw := by
  obtain ⟨front, back, rfl, -, h_back⟩ := h.exists_append
  cases h_back with
  | @cons separator raw _ _ _ _ _ h_lexeme _ h_nil =>
    cases h_nil
    exact ⟨front ++ separator, raw, by simp, h_lexeme⟩

theorem Lexeme.ne_nil {token : Token} {raw : Bytes} (h : Lexeme token raw) : raw ≠ [] := by
  rintro rfl
  generalize h_raw : ([] : Bytes) = raw at h
  cases h with
  | colon | openBrace | closeBrace | quoted _ => cases h_raw
  | bare h_bare => rw [← h_raw] at h_bare; cases h_bare

/-- Only a bare string ends with a byte of a bare string. -/
theorem Lexeme.bare_of_getLast {token : Token} {raw : Bytes} {last : UInt8}
    (h : Lexeme token raw) (h_last : raw.getLast? = some last)
    (h_byte : isBareByte last = true) : token = .text raw ∧ isBare raw = true := by
  cases h with
  | bare h_bare => exact ⟨rfl, h_bare⟩
  | colon | openBrace | closeBrace =>
    obtain rfl := Option.some.inj h_last
    cases h_byte
  | quoted _ =>
    rw [List.getLast?_concat] at h_last
    obtain rfl := Option.some.inj h_last
    cases h_byte

end

end Grammar
end PropertyText
