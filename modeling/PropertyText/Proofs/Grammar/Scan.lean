/-
  PropertyText.Proofs.Grammar.Scan

  The machine reads the tokens of the grammar, and stops at its faults: `scan_lexeme`,
  `scan_trailer` and `scan_fault` give the token or the cause, the text behind it and the
  line on which that text goes on.
-/
import PropertyText.Proofs.Grammar.Lexeme
import PropertyText.Proofs.Input.Unread

namespace PropertyText

theorem newlines_cons (b : UInt8) (text : Bytes) :
    newlines (b :: text) = newlines [b] + newlines text :=
  newlines_append [b] text

namespace Token

variable {comments : Bool}

/-! ## Bytes that end no token -/

/-- The mode behind some bytes, if no token ends within them. -/
def Mode.over (comments : Bool) : Mode → Bytes → Option Mode
  | mode, [] => some mode
  | mode, b :: rest =>
    match mode.step comments b with
    | .more next => next.over comments rest
    | _ => none

theorem Mode.over_cons {mode next : Mode} {b : UInt8} (h : mode.step comments b = .more next)
    (rest : Bytes) : mode.over comments (b :: rest) = next.over comments rest := by
  rw [Mode.over, h]

theorem Mode.over_append (mode : Mode) (a b : Bytes) :
    mode.over comments (a ++ b) = (mode.over comments a).bind (·.over comments b) := by
  induction a generalizing mode with
  | nil => rfl
  | cons c a ih =>
    rw [List.cons_append, Mode.over, Mode.over]
    cases mode.step comments c with
    | more next => exact ih next
    | done token | before token | refused cause => rfl

theorem Mode.exists_step_of_over {mode next : Mode} {b : UInt8} {rest : Bytes}
    (h : mode.over comments (b :: rest) = some next) :
    ∃ mode', mode.step comments b = .more mode' ∧ mode'.over comments rest = some next := by
  rw [Mode.over] at h
  cases h_step : mode.step comments b with
  | more mode' =>
    rw [h_step] at h
    exact ⟨mode', rfl, h⟩
  | done token | before token | refused cause =>
    rw [h_step] at h
    cases h

/-- Such bytes are stepped over, and their lines are counted. -/
theorem scan_over {mode next : Mode} {bytes rest : Bytes} {failure : Option String} {line : Nat}
    (h : mode.over comments bytes = some next) :
    scan comments mode (⟨bytes ++ rest, failure, line⟩ : Unread) =
      scan comments next ⟨rest, failure, line + newlines bytes⟩ := by
  induction bytes generalizing mode line with
  | nil =>
    obtain rfl := Option.some.inj h
    rfl
  | cons b bytes ih =>
    obtain ⟨mode', h_step, h_rest⟩ := Mode.exists_step_of_over h
    rw [List.cons_append, scan_more h_step, ih h_rest, newlines_cons b bytes, Nat.add_assoc]

section

variable {mode next : Mode} {bytes rest : Bytes} {line : Nat} {b : UInt8}

theorem scan_over_end (h : mode.over comments bytes = some next) :
    scan comments mode (⟨bytes, none, line⟩ : Unread) =
      (next.finish.mapError .malformed, ⟨[], none, line + newlines bytes⟩) := by
  rw [← scan_nil, ← scan_over h, List.append_nil]

theorem scan_over_done {token : Token} (h : mode.over comments bytes = some next)
    (h_step : next.step comments b = .done token) :
    scan comments mode (⟨bytes ++ [b] ++ rest, none, line⟩ : Unread) =
      (.ok token, ⟨rest, none, line + newlines (bytes ++ [b])⟩) := by
  rw [List.append_assoc, scan_over h, List.singleton_append, scan_done h_step, newlines_append,
    Nat.add_assoc]

end

/-! ## Bytes that are no token -/

/-- A mode in which the last byte of a text is refused, or its end where nothing follows. -/
inductive Mode.Refuses (comments : Bool) : Mode → Bytes → Bytes → Malformation → Prop
  | byte {mode : Mode} {b : UInt8} {rest : Bytes} {cause : Malformation} :
      mode.step comments b = .refused cause → Refuses comments mode [b] rest cause
  | ended {mode : Mode} {cause : Malformation} :
      mode.finish = .error cause → Refuses comments mode [] [] cause
  | more {mode next : Mode} {b : UInt8} {broken rest : Bytes} {cause : Malformation} :
      mode.step comments b = .more next → Refuses comments next broken rest cause →
      Refuses comments mode (b :: broken) rest cause

theorem Mode.Refuses.after {mode next : Mode} {bytes broken rest : Bytes} {cause : Malformation}
    (h : next.Refuses comments broken rest cause) (h_over : mode.over comments bytes = some next) :
    mode.Refuses comments (bytes ++ broken) rest cause := by
  induction bytes generalizing mode with
  | nil =>
    obtain rfl := Option.some.inj h_over
    exact h
  | cons b bytes ih =>
    obtain ⟨mode', h_step, h_rest⟩ := Mode.exists_step_of_over h_over
    exact .more h_step (ih h_rest)

/-- The refused byte is stepped over. -/
theorem scan_refuses {mode : Mode} {broken rest : Bytes} {cause : Malformation} {line : Nat}
    (h : mode.Refuses comments broken rest cause) :
    scan comments mode (⟨broken ++ rest, none, line⟩ : Unread) =
      (.error (.malformed cause), ⟨rest, none, line + newlines broken⟩) := by
  induction h generalizing line with
  | byte h_step => exact scan_refused h_step
  | ended h_finish =>
    rw [List.append_nil, scan_nil, h_finish]
    rfl
  | @more mode next b broken rest cause h_step _ ih =>
    rw [List.cons_append, scan_more h_step, ih, newlines_cons b broken, Nat.add_assoc]

end Token

namespace Grammar

open Token (Mode)

variable {comments : Bool}

/-! ## What each byte means to the machine -/

theorem step_blank_of_isBlank {b : UInt8} (h : Ascii.isBlank b = true) :
    Mode.blank.step comments b = .more .blank := by
  rw [Mode.step, Mode.begin, if_pos h]

theorem step_blank_quote : Mode.blank.step comments Ascii.quote = .more (.quoted []) := by
  cases comments <;> rfl

theorem step_blank_slash (h : comments = true) :
    Mode.blank.step comments Ascii.slash = .more .slash := by
  subst h
  rfl

theorem step_blank_of_isBareByte {b : UInt8} (h : isBareByte b = true) :
    Mode.blank.step comments b = .more (.bare [b]) := by
  -- None of the bytes that `begin` looks for first may stand in a bare string.
  have h_ne (c : UInt8) (h_c : isBareByte c = false) : b ≠ c := by
    rintro rfl
    simp [h] at h_c
  have h_blank : Ascii.isBlank b = false := by
    simp [Ascii.isBlank, h_ne Ascii.space rfl, h_ne Ascii.tab rfl, h_ne Ascii.newline rfl,
      h_ne Ascii.carriageReturn rfl]
  simp [Mode.step, Mode.begin, h_blank, h_ne Ascii.slash rfl, h_ne Ascii.colon rfl,
    h_ne Ascii.openBrace rfl, h_ne Ascii.closeBrace rfl, h_ne Ascii.quote rfl, h]

theorem step_blank_of_stray {b : UInt8} (h : Stray comments b) :
    Mode.blank.step comments b = .refused .strayByte := by
  obtain ⟨h_blank, h_slash, h_colon, h_open, h_close, h_quote, h_bare⟩ := stray_iff.mp h
  simp [Mode.step, Mode.begin, h_blank, h_slash, h_colon, h_open, h_close, h_quote, h_bare]

theorem step_quoted_of_plain {b : UInt8} (h_quote : b ≠ Ascii.quote)
    (h_backslash : b ≠ Ascii.backslash) (read : Bytes) :
    (Mode.quoted read).step comments b = .more (.quoted (b :: read)) := by
  simp [Mode.step, h_quote, h_backslash]

/-- The machine's escapes of one letter are those of the table. -/
theorem escapedByte?_eq_some_iff (letter b : UInt8) :
    Token.escapedByte? letter = some b ↔ (letter, b) ∈ escapeLetters := by
  simp only [Token.escapedByte?, escapeLetters, List.mem_cons, List.not_mem_nil, Prod.mk.injEq,
    beq_iff_eq]
  grind [Ascii.backslash, Ascii.quote]

theorem step_escape_of_mem {letter b : UInt8} (h : (letter, b) ∈ escapeLetters) (read : Bytes) :
    (Mode.escape read).step comments letter = .more (.quoted (b :: read)) := by
  rw [Mode.step, Mode.afterBackslash, (escapedByte?_eq_some_iff letter b).mpr h]

theorem escapedByte?_of_not_mem {letter : UInt8} (h : letter ∉ escapeLetters.map Prod.fst) :
    Token.escapedByte? letter = none := by
  rw [Option.eq_none_iff_forall_ne_some]
  intro b h_some
  exact h (List.mem_map_of_mem ((escapedByte?_eq_some_iff letter b).mp h_some))

theorem step_hexLow {low : UInt8} {l : Nat} (h : Ascii.hexValue? low = some l) (read : Bytes)
    (high : Nat) :
    (Mode.hexLow read high).step comments low = Mode.ofHex read (16 * high + l) := by
  rw [Mode.step, h]

/-! ## Texts within a token and between tokens -/

theorem over_comment {words : Bytes} (h : Ascii.newline ∉ words) :
    Mode.comment.over comments words = some .comment := by
  induction words with
  | nil => rfl
  | cons b words ih =>
    obtain ⟨h_b, h_words⟩ := List.ne_and_not_mem_of_not_mem_cons h
    have h_step : Mode.comment.step comments b = .more .comment := by
      simp [Mode.step, h_b.symm]
    rw [Mode.over_cons h_step, ih h_words]

theorem over_separator {text : Bytes} (h : Separator comments text) :
    Mode.blank.over comments text = some .blank := by
  induction h with
  | nil => rfl
  | blank h_blank _ ih => rw [Mode.over_cons (step_blank_of_isBlank h_blank), ih]
  | comment h_comments h_words _ ih =>
    rw [List.cons_append, Mode.over_cons (step_blank_slash h_comments), List.cons_append,
      Mode.over_cons rfl, Mode.over_append, over_comment h_words, Option.bind_some,
      Mode.over_cons rfl, ih]

/-- Behind a stretch of a quoted string, the bytes that it means have been read. -/
theorem over_quoted {raw text : Bytes} (h : Quoted raw text) (read : Bytes) :
    (Mode.quoted read).over comments raw = some (.quoted (text.reverse ++ read)) := by
  induction h generalizing read with
  | nil => rfl
  | plain h_quote h_backslash _ ih =>
    rw [Mode.over_cons (step_quoted_of_plain h_quote h_backslash read), ih]
    simp
  | letter h_mem _ ih =>
    rw [Mode.over_cons rfl, Mode.over_cons (step_escape_of_mem h_mem read), ih]
    simp
  | @hex high low h l raw text h_high h_low h_zero h_control _ ih =>
    -- The value is neither zero nor that of a printable character.
    have h_step : (Mode.hexLow read h).step comments low =
        .more (.quoted (UInt8.ofNat (16 * h + l) :: read)) := by
      rw [step_hexLow h_low, Mode.ofHex, if_neg (by simp; omega), if_pos (by omega)]
    rw [Mode.over_cons rfl, Mode.over_cons rfl, Mode.over_cons (by rw [Mode.step, h_high]),
      Mode.over_cons h_step, ih]
    simp

theorem over_quote {raw text : Bytes} (h : Quoted raw text) :
    Mode.blank.over comments (Ascii.quote :: raw) = some (.quoted text.reverse) := by
  rw [Mode.over_cons step_blank_quote, over_quoted h, List.append_nil]

theorem over_bare {text : Bytes} (h : text.all isBareByte = true) (read : Bytes) :
    (Mode.bare read).over comments text = some (.bare (text.reverse ++ read)) := by
  induction text generalizing read with
  | nil => rfl
  | cons b text ih =>
    rw [List.all_cons, Bool.and_eq_true] at h
    have h_step : (Mode.bare read).step comments b = .more (.bare (b :: read)) := by
      rw [Mode.step, if_pos h.1]
    rw [Mode.over_cons h_step, ih h.2]
    simp

/-! ## Tokens -/

section

variable {line : Nat} {rest : Bytes}

theorem scan_separator {text : Bytes} (h : Separator comments text) :
    Token.scan comments .blank (⟨text ++ rest, none, line⟩ : Unread) =
      Token.scan comments .blank ⟨rest, none, line + newlines text⟩ :=
  Token.scan_over (over_separator h)

/-- A bare string ends before a byte of another kind, or with the text. -/
theorem scan_bare {read : Bytes} (h : ∀ b ∈ rest.head?, isBareByte b = false) :
    Token.scan comments (.bare read) (⟨rest, none, line⟩ : Unread) =
      (.ok (.text read.reverse), ⟨rest, none, line⟩) := by
  cases rest with
  | nil => exact Token.scan_nil
  | cons b rest =>
    have h_bare : isBareByte b = false := h b rfl
    exact Token.scan_before (by rw [Mode.step, if_neg (by simp [h_bare])])

theorem scan_lexeme {token : Token} {raw : Bytes} (h : Lexeme token raw) (h_end : Maximal raw rest) :
    Token.scan comments .blank (⟨raw ++ rest, none, line⟩ : Unread) =
      (.ok token, ⟨rest, none, line + newlines raw⟩) := by
  cases h with
  | colon | openBrace | closeBrace => exact Token.scan_done (by cases comments <;> rfl)
  | bare h_bare =>
    have h_over : Mode.blank.over comments raw = some (.bare raw.reverse) := by
      cases raw with
      | nil => simp at h_bare
      | cons b text =>
        rw [isBare_cons, Bool.and_eq_true] at h_bare
        rw [Mode.over_cons (step_blank_of_isBareByte h_bare.1), over_bare h_bare.2,
          List.reverse_cons]
    rw [Token.scan_over h_over, scan_bare (h_end h_bare), List.reverse_reverse]
  | @quoted raw text h_raw =>
    rw [Token.scan_over_done (over_quote h_raw) rfl, List.reverse_reverse]

/-- Behind the last token the end of the text is found. -/
theorem scan_trailer {text : Bytes} (h : Trailer comments text) :
    Token.scan comments .blank (⟨text, none, line⟩ : Unread) =
      (.ok .ended, ⟨[], none, line + newlines text⟩) := by
  cases h with
  | separator h_separator => exact Token.scan_over_end (over_separator h_separator)
  | @comment text words h_comments h_separator h_words =>
    -- The text may end in the midst of a comment.
    have h_over : Mode.blank.over comments (text ++ Ascii.slash :: Ascii.slash :: words) =
        some .comment := by
      rw [Mode.over_append, over_separator h_separator, Option.bind_some,
        Mode.over_cons (step_blank_slash h_comments), Mode.over_cons rfl, over_comment h_words]
    exact Token.scan_over_end h_over

/-! ## Faults -/

theorem refuses_of_brokenQuote {part : Bytes} {cause : Malformation}
    (h : BrokenQuote part rest cause) (read : Bytes) :
    (Mode.quoted read).Refuses comments part rest cause := by
  cases h with
  | unknownEscape h_letter h_hex =>
    refine .more rfl (.byte ?_)
    rw [Mode.step, Mode.afterBackslash, escapedByte?_of_not_mem h_letter]
    exact if_neg (by simpa using h_hex)
  | badHigh h_high => exact .more rfl (.more rfl (.byte (by rw [Mode.step, h_high])))
  | badLow h_high h_low =>
    exact .more rfl (.more rfl (.more (by rw [Mode.step, h_high]) (.byte (by rw [Mode.step, h_low]))))
  | zero h_high h_low =>
    refine .more rfl (.more rfl (.more (by rw [Mode.step, h_high]) (.byte ?_)))
    rw [step_hexLow h_low]
    rfl
  | printable h_high h_low h_large =>
    refine .more rfl (.more rfl (.more (by rw [Mode.step, h_high]) (.byte ?_)))
    rw [step_hexLow h_low, Mode.ofHex, if_neg (by simp; omega), if_neg (by omega)]
  | ended => exact .ended rfl
  | endedEscape => exact .more rfl (.ended rfl)
  | endedHex => exact .more rfl (.more rfl (.ended rfl))
  | endedLow h_high => exact .more rfl (.more rfl (.more (by rw [Mode.step, h_high]) (.ended rfl)))

theorem refuses_of_fault {broken : Bytes} {cause : Malformation}
    (h : Fault comments broken rest cause) : Mode.blank.Refuses comments broken rest cause := by
  cases h with
  | stray h_stray => exact .byte (step_blank_of_stray h_stray)
  | slash h_comments h_second =>
    refine .more (step_blank_slash h_comments) (.byte ?_)
    exact if_neg (by simpa using h_second)
  | endedSlash h_comments => exact .more (step_blank_slash h_comments) (.ended rfl)
  | quoted h_raw h_part => exact (refuses_of_brokenQuote h_part _).after (over_quote h_raw)

/-- A fault is found where it stands, and told by its cause. -/
theorem scan_fault {broken : Bytes} {cause : Malformation} (h : Fault comments broken rest cause) :
    Token.scan comments .blank (⟨broken ++ rest, none, line⟩ : Unread) =
      (.error (.malformed cause), ⟨rest, none, line + newlines broken⟩) :=
  Token.scan_refuses (refuses_of_fault h)

/-! ## The start of a document -/

/-- Behind what stands in front of the first token the machine is between tokens. -/
theorem scan_opening {front text : Bytes} (h : Opening front text) :
    Token.scan comments .fresh (⟨front ++ text, none, line⟩ : Unread) =
      Token.scan comments .blank ⟨text, none, line + newlines front⟩ := by
  cases h with
  | mark => exact Token.scan_over rfl
  | none h_first =>
    cases text with
    | nil =>
      rw [List.nil_append, Token.scan_nil, Token.scan_nil]
      rfl
    | cons b text =>
      -- Only the first byte of a mark is treated otherwise than between tokens.
      have h_step : Mode.fresh.step comments b = Mode.blank.step comments b :=
        if_neg (by simpa using h_first)
      rw [List.nil_append, Token.scan_of_byte Unread.peek_cons, h_step,
        Token.scan_of_byte Unread.peek_cons]
      rfl

theorem scan_brokenMark {broken : Bytes} (h : BrokenMark broken rest) :
    Token.scan comments .fresh (⟨broken ++ rest, none, line⟩ : Unread) =
      (.error (.malformed .brokenMark), ⟨rest, none, line + newlines broken⟩) := by
  apply Token.scan_refuses
  cases h with
  | second h_second => exact .more rfl (.byte (if_neg (by simpa using h_second)))
  | third h_third => exact .more rfl (.more rfl (.byte (if_neg (by simpa using h_third))))
  | ended => exact .more rfl (.ended rfl)
  | endedSecond => exact .more rfl (.more rfl (.ended rfl))

end

/-! ## What has been read -/

/-- A text that was read, what stands behind it, and what it was read as. -/
inductive Reads (comments : Bool) : Bytes → Bytes → Except Token.Fault Token → Prop
  | lexeme {separator raw rest : Bytes} {token : Token} :
      Separator comments separator → Lexeme token raw → Maximal raw rest →
      Reads comments (separator ++ raw) rest (.ok token)
  | trailer {text : Bytes} : Trailer comments text → Reads comments text [] (.ok .ended)
  | fault {separator broken rest : Bytes} {cause : Malformation} :
      Separator comments separator → Fault comments broken rest cause →
      Reads comments (separator ++ broken) rest (.error (.malformed cause))

variable {u u' : Unread} {result : Except Token.Fault Token} {mode : Mode}

/-- The machine steps over a front part of the text and counts the newlines there.  Fetching
fails only behind all that there was; a failure that was not met still lies ahead. -/
theorem moved_of_scan (h : Token.scan comments mode u = (result, u')) :
    ∃ moved, u.bytes = moved ++ u'.bytes ∧ u'.line = u.line + newlines moved ∧
      ((∃ message, result = .error (.failed message) ∧ u.failure = some message ∧
          u'.bytes = []) ∨
        (∀ message, result ≠ .error (.failed message)) ∧ u'.failure = u.failure) := by
  obtain ⟨bytes, failure, line⟩ := u
  induction bytes generalizing mode line with
  | nil =>
    cases failure with
    | some message =>
      rw [Token.scan_failed] at h
      obtain ⟨rfl, rfl⟩ := Prod.mk.inj h
      exact ⟨[], rfl, rfl, Or.inl ⟨message, rfl, rfl, rfl⟩⟩
    | none =>
      rw [Token.scan_nil] at h
      obtain ⟨rfl, rfl⟩ := Prod.mk.inj h
      refine ⟨[], rfl, rfl, Or.inr ⟨?_, rfl⟩⟩
      -- Whether a token may end there or not, the text has ended.
      cases mode.finish with
      | error cause => rintro _ ⟨⟩
      | ok token => rintro _ ⟨⟩
  | cons b rest ih =>
    cases h_step : mode.step comments b with
    | more next =>
      rw [Token.scan_more h_step] at h
      obtain ⟨moved, h_bytes, h_line, h_end⟩ := ih _ h
      refine ⟨b :: moved, congrArg (b :: ·) h_bytes, ?_, h_end⟩
      rw [newlines_cons, ← Nat.add_assoc]
      exact h_line
    | done token =>
      rw [Token.scan_done h_step] at h
      obtain ⟨rfl, rfl⟩ := Prod.mk.inj h
      exact ⟨[b], rfl, rfl, Or.inr ⟨by simp, rfl⟩⟩
    | before token =>
      rw [Token.scan_before h_step] at h
      obtain ⟨rfl, rfl⟩ := Prod.mk.inj h
      exact ⟨[], rfl, rfl, Or.inr ⟨by simp, rfl⟩⟩
    | refused cause =>
      rw [Token.scan_refused h_step] at h
      obtain ⟨rfl, rfl⟩ := Prod.mk.inj h
      exact ⟨[b], rfl, rfl, Or.inr ⟨by simp, rfl⟩⟩

/-- What is read is the same if the text is sure to end, unless fetching it fails. -/
theorem scan_without_failure (h : Token.scan comments mode u = (result, u'))
    (h_result : ∀ message, result ≠ .error (.failed message)) :
    Token.scan comments mode (⟨u.bytes, none, u.line⟩ : Unread) =
      (result, ⟨u'.bytes, none, u'.line⟩) := by
  fun_induction Token.scan comments mode u with
  | case1 mode u u₁ h_peek =>
    obtain ⟨bytes, failure, line⟩ := u
    cases bytes with
    | cons b rest => cases h_peek
    | nil =>
      cases failure with
      | some message => cases h_peek
      | none =>
        obtain ⟨-, rfl⟩ := Prod.mk.inj h_peek
        rw [Token.scan_nil, (Prod.mk.inj h).1, ← (Prod.mk.inj h).2]
  | case2 mode u m u₁ h_peek => exact absurd (Prod.mk.inj h).1.symm (h_result m)
  | case3 mode u b u₁ h_peek next h_step ih =>
    obtain ⟨rest, failure, line, rfl, rfl⟩ := Unread.exists_of_peek h_peek
    rw [Token.scan_more h_step]
    exact ih h
  | case4 mode u b u₁ h_peek t h_step =>
    obtain ⟨rest, failure, line, rfl, rfl⟩ := Unread.exists_of_peek h_peek
    obtain ⟨h_token, rfl⟩ := Prod.mk.inj h
    rw [Token.scan_done h_step, h_token]
    rfl
  | case5 mode u b u₁ h_peek t h_step =>
    obtain ⟨rest, failure, line, rfl, rfl⟩ := Unread.exists_of_peek h_peek
    obtain ⟨h_token, rfl⟩ := Prod.mk.inj h
    rw [Token.scan_before h_step, h_token]
  | case6 mode u b u₁ h_peek cause h_step =>
    obtain ⟨rest, failure, line, rfl, rfl⟩ := Unread.exists_of_peek h_peek
    obtain ⟨h_cause, rfl⟩ := Prod.mk.inj h
    rw [Token.scan_refused h_step, h_cause]
    rfl

/-- Between tokens the machine reads one that stands behind a separator and is taken as long
as possible, or it finds the end of the text, or a fault. -/
theorem reads_of_scan (h : Token.scan comments .blank u = (result, u'))
    (h_result : ∀ message, result ≠ .error (.failed message)) :
    ∃ text, u.bytes = text ++ u'.bytes ∧ u'.line = u.line + newlines text ∧
      Reads comments text u'.bytes result := by
  have h_sure := scan_without_failure h h_result
  rcases exists_lexeme comments u.bytes with
    h_trailer | ⟨separator, token, raw, rest, h_bytes, h_separator, h_lexeme, -, h_maximal⟩ |
    ⟨separator, broken, rest, cause, h_bytes, h_separator, h_fault⟩
  · rw [scan_trailer h_trailer] at h_sure
    obtain ⟨rfl, h_rest⟩ := Prod.mk.inj h_sure
    obtain ⟨h_nil, -, h_line⟩ := Unread.mk.inj h_rest
    rw [← h_nil, ← h_line]
    exact ⟨u.bytes, (List.append_nil _).symm, rfl, .trailer h_trailer⟩
  · rw [h_bytes, List.append_assoc, scan_separator h_separator,
      scan_lexeme h_lexeme h_maximal] at h_sure
    obtain ⟨rfl, h_rest⟩ := Prod.mk.inj h_sure
    obtain ⟨rfl, -, h_line⟩ := Unread.mk.inj h_rest
    rw [← h_line, Nat.add_assoc, ← newlines_append]
    exact ⟨separator ++ raw, h_bytes, rfl, .lexeme h_separator h_lexeme h_maximal⟩
  · rw [h_bytes, List.append_assoc, scan_separator h_separator, scan_fault h_fault] at h_sure
    obtain ⟨rfl, h_rest⟩ := Prod.mk.inj h_sure
    obtain ⟨rfl, -, h_line⟩ := Unread.mk.inj h_rest
    rw [← h_line, Nat.add_assoc, ← newlines_append]
    exact ⟨separator ++ broken, h_bytes, rfl, .fault h_separator h_fault⟩

/-- In front of the first token a byte-order mark may stand, or what is left of one. -/
theorem reads_of_scan_between (h_mode : mode.IsBetween)
    (h : Token.scan comments mode u = (result, u'))
    (h_result : ∀ message, result ≠ .error (.failed message)) :
    ∃ front text, u.bytes = front ++ text ++ u'.bytes ∧
      u'.line = u.line + newlines (front ++ text) ∧ (mode = .blank → front = []) ∧
      (Reads comments text u'.bytes result ∨
        mode = .fresh ∧ BrokenMark (front ++ text) u'.bytes ∧
          result = .error (.malformed .brokenMark)) := by
  rcases h_mode with rfl | rfl
  · have h_sure := scan_without_failure h h_result
    rcases exists_opening u.bytes with ⟨front, rest, h_bytes, h_front⟩ | ⟨broken, rest, h_bytes, h_mark⟩
    · rw [h_bytes, scan_opening h_front] at h_sure
      obtain ⟨text, h_rest, h_line, h_reads⟩ := reads_of_scan h_sure h_result
      dsimp only at h_rest
      rw [h_rest, ← List.append_assoc] at h_bytes
      refine ⟨front, text, h_bytes, ?_, nofun, Or.inl h_reads⟩
      rw [newlines_append, ← Nat.add_assoc]
      exact h_line
    · rw [h_bytes, scan_brokenMark h_mark] at h_sure
      obtain ⟨rfl, h_rest⟩ := Prod.mk.inj h_sure
      obtain ⟨rfl, -, h_line⟩ := Unread.mk.inj h_rest
      exact ⟨[], broken, h_bytes, h_line.symm, nofun, Or.inr ⟨rfl, h_mark, rfl⟩⟩
  · obtain ⟨text, h_bytes, h_line, h_reads⟩ := reads_of_scan h h_result
    exact ⟨[], text, h_bytes, h_line, fun _ => rfl, Or.inl h_reads⟩

/-- A token other than the end of the text stands behind a separator. -/
theorem exists_lexeme_of_scan_between (h_mode : mode.IsBetween) {token : Token}
    (h : Token.scan comments mode u = (.ok token, u')) (h_token : token ≠ .ended) :
    ∃ front separator raw, u.bytes = front ++ (separator ++ raw ++ u'.bytes) ∧
      Separator comments separator ∧ Lexeme token raw ∧ Maximal raw u'.bytes ∧
      (mode = .blank → front = []) := by
  obtain ⟨front, text, h_bytes, -, h_front, h_reads | ⟨-, -, h_result⟩⟩ :=
    reads_of_scan_between h_mode h nofun
  · rw [List.append_assoc] at h_bytes
    generalize u'.bytes = rest at *
    cases h_reads with
    | @lexeme separator raw _ _ h_separator h_lexeme h_maximal =>
      exact ⟨front, separator, raw, h_bytes, h_separator, h_lexeme, h_maximal, h_front⟩
    | trailer => exact absurd rfl h_token
  · cases h_result

end Grammar
end PropertyText
