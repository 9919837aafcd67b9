/-
  PropertyText.Proofs.Grammar.Quoting

  Quotes are put where they are needed and nowhere else (`Stream.tokens_alone_iff_isBare`).

  * A string that is not bare cannot be read back from its own text, since any other token that
    means a string is longer than the string (`Grammar.Lexeme.isBare_of_infix`).
  * What a writer puts for a string is read as the string (`Stream.tokens_written`), except that
    a zero byte is refused (`Stream.tokens_written_of_zero`).
-/
import PropertyText.Proofs.Grammar.Load
import PropertyText.Proofs.Grammar.Written
import PropertyText.Source.Scripted

namespace PropertyText

open Grammar

namespace Grammar

/-- What is meant between quotes is no longer than what stands there. -/
theorem Quoted.length_le {raw text : Bytes} (h : Quoted raw text) : text.length ≤ raw.length := by
  induction h with
  | nil => exact Nat.le_refl _
  | plain _ _ _ ih | letter _ _ ih | hex _ _ _ _ _ ih =>
    simp only [List.length_cons]
    omega

/-- A string that stands within its own text as a token is bare. -/
theorem Lexeme.isBare_of_infix {text raw : Bytes} (h : Lexeme (.text text) raw)
    (h_raw : raw <:+: text) : isBare text = true := by
  cases h with
  | bare h_bare => exact h_bare
  | quoted h_quoted =>
    have h_short := h_raw.length_le
    have h_long := h_quoted.length_le
    simp only [List.length_append, List.length_cons, List.length_nil] at h_short
    omega

end Grammar

namespace Stream

/-! ## All tokens of a document -/

variable {ι : Type} [Input ι]

/-- The tokens that can still be read, up to the end of the text or an error. -/
def tokens (s : Stream ι) : List Token :=
  match _h : s.takeToken with
  | (none, _) => []
  | (some token, s') => if _h_ended : token = .ended then [.ended] else token :: s'.tokens
termination_by Input.left s.input
decreasing_by exact left_takeToken_lt _h _h_ended

variable {s s' : Stream ι} {token : Token}

theorem tokens_of_none (h : s.takeToken = (none, s')) : s.tokens = [] := by
  rw [tokens]
  split <;> simp_all

theorem tokens_of_ended (h : s.takeToken = (some .ended, s')) : s.tokens = [.ended] := by
  rw [tokens]
  split <;> simp_all

theorem tokens_of_some (h : s.takeToken = (some token, s')) (h_token : token ≠ .ended) :
    s.tokens = token :: s'.tokens := by
  rw [tokens]
  split <;> simp_all

theorem tokens_map {κ : Type} [Input κ] {view : ι → κ} (h : Input.View view) (s : Stream ι) :
    (s.map view).tokens = s.tokens := by
  fun_induction tokens s with
  | case1 s s' h_take =>
    have h_view := takeToken_map (s := s) h
    rw [h_take] at h_view
    exact tokens_of_none h_view
  | case2 s s' h_take =>
    have h_view := takeToken_map (s := s) h
    rw [h_take] at h_view
    exact tokens_of_ended h_view
  | case3 s token s' h_take h_token ih =>
    have h_view := takeToken_map (s := s) h
    rw [h_take] at h_view
    rw [tokens_of_some h_view h_token, ← ih]

/-! ## Documents of one token -/

/-- A document that is a token is read as the token. -/
theorem tokens_of_lexeme {comments : Bool} {raw : Bytes} (h : Lexeme token raw)
    (h_head : raw.head? ≠ some 0xef) :
    (ofInput ({ bytes := raw } : Unread) comments).tokens = [token, .ended] := by
  have h_tokens : Tokens comments ([] ++ raw ++ []) [token] [] :=
    .cons .nil h (fun _ _ h_mem => absurd h_mem (by simp)) .nil
  rw [List.nil_append, List.append_nil] at h_tokens
  have h_start : Start comments ([] ++ raw) [token] [] :=
    .intro (.none (by rwa [List.append_nil])) h_tokens
  have h_ahead := ahead_ofInput h_start
  rw [List.nil_append, List.append_nil] at h_ahead
  -- Behind the token there is nothing but the end of the text.
  obtain ⟨input, h_take, h_behind, -⟩ := h_ahead.takeToken
  obtain ⟨last, h_end, -⟩ := h_behind.takeToken_trailer (.separator .nil)
  rw [tokens_of_some h_take h_ahead.token_ne_ended, tokens_of_ended h_end]

/-- Where the first token of a document is the document itself, that is bare. -/
theorem isBare_of_tokens {comments : Bool} {text : Bytes} {rest : List Token}
    (h : (ofInput ({ bytes := text } : Unread) comments).tokens = .text text :: rest) :
    isBare text = true := by
  have h_take := takeToken_of_none (s := ofInput ({ bytes := text } : Unread) comments) rfl
  rcases h_scan : Token.scan (ofInput ({ bytes := text } : Unread) comments).comments
    (ofInput ({ bytes := text } : Unread) comments).mode
    (ofInput ({ bytes := text } : Unread) comments).input with ⟨fault | token, input⟩
  · rw [h_scan] at h_take
    rw [tokens_of_none h_take] at h
    cases h
  · rw [h_scan] at h_take
    by_cases h_ended : token = .ended
    · rw [h_ended] at h_take
      rw [tokens_of_ended h_take] at h
      cases h
    · rw [tokens_of_some h_take h_ended] at h
      obtain ⟨rfl, -⟩ := List.cons.inj h
      -- The token stands in the document, which is its own meaning.
      obtain ⟨front, separator, raw, h_bytes, -, h_lexeme, -⟩ :=
        exists_lexeme_of_scan_between (Or.inl rfl) h_scan h_ended
      have h_whole : text = front ++ (separator ++ raw ++ input.bytes) := h_bytes
      rw [← List.append_assoc, ← List.append_assoc] at h_whole
      exact h_lexeme.isBare_of_infix ⟨front ++ separator, input.bytes, h_whole.symm⟩

/-- What a writer puts for a string without a zero byte is read as the string. -/
theorem tokens_written {comments : Bool} {text : Bytes} (h : 0 ∉ text) :
    (ofInput ({ bytes := written text } : Unread) comments).tokens = [.text text, .ended] := by
  apply tokens_of_lexeme (lexeme_written h)
  have h_head := head_written_append text []
  rwa [List.append_nil] at h_head

/-- What a writer puts for a string with a zero byte is refused. -/
theorem tokens_written_of_zero {comments : Bool} {text : Bytes} (h : 0 ∈ text) :
    (ofInput ({ bytes := written text } : Unread) comments).tokens = [] := by
  obtain ⟨broken, more, h_written, -, h_fault⟩ := fault_written comments h
  have h_head := head_written_append text []
  rw [List.append_nil] at h_head
  have h_start : Start comments ([] ++ []) [] (written text) := .intro (.none h_head) .nil
  have h_ahead := ahead_ofInput h_start
  rw [h_written] at h_ahead ⊢
  obtain ⟨input, h_take⟩ := h_ahead.takeToken_fault .nil (h_fault more)
  exact tokens_of_none h_take

/-- A document that consists of a string alone is read as that string just if it is bare. -/
theorem tokens_alone {comments : Bool} {text : Bytes} :
    (ofInput ({ bytes := text } : Unread) comments).tokens = [.text text, .ended] ↔
      isBare text = true := by
  constructor
  · exact isBare_of_tokens
  · intro h_bare
    have h_zero : 0 ∉ text := by
      intro h_mem
      rw [isBare, Bool.and_eq_true] at h_bare
      cases List.all_eq_true.mp h_bare.2 0 h_mem
    have h_tokens : (ofInput ({ bytes := written text } : Unread) comments).tokens =
        [.text text, .ended] := tokens_written h_zero
    rwa [written_eq_self_iff.mpr h_bare] at h_tokens

/-- The tokens of a source are those of the text that it delivers. -/
theorem tokens_ofSource {σ : Type} [Source σ] {source : σ} {options : ReaderOptions} {text : Bytes}
    (h : Source.delivered source (max options.bufferSize 1) = (text, none)) :
    (ofSource source options).tokens =
      (ofInput ({ bytes := text } : Unread) options.comments).tokens := by
  rw [← tokens_map ReadAhead.view_unread, ReadAhead.map_unread_ofSource, h]

/-! ## Where quotes are needed -/

/-- Quotes are put where they are needed and nowhere else.  A document that consists of a string
alone is read as that string, and nothing behind it, if and only if the string is bare; a writer
puts a string as it stands just then.  What it puts for any other string is the string between
quotes, and this is read as the string, unless there is a zero byte, which is refused. -/
theorem tokens_alone_iff_isBare {σ τ : Type} [Source σ] [Source τ] (source : σ) (other : τ)
    (o p : ReaderOptions) (text : Bytes)
    (h_source : Source.delivered source (max o.bufferSize 1) = (text, none))
    (h_other : Source.delivered other (max p.bufferSize 1) = (written text, none)) :
    ((ofSource source o).tokens = [.text text, .ended] ↔ isBare text = true) ∧
      (written text = text ↔ (ofSource source o).tokens = [.text text, .ended]) ∧
      (isBare text = false → written text = quoted text) ∧
      (0 ∉ text → (ofSource other p).tokens = [.text text, .ended]) ∧
      (0 ∈ text → (ofSource other p).tokens = []) := by
  have h_alone : (ofSource source o).tokens = [.text text, .ended] ↔ isBare text = true := by
    rw [tokens_ofSource h_source]
    exact tokens_alone
  refine ⟨h_alone, written_eq_self_iff.trans h_alone.symm, ?_, ?_, ?_⟩
  · intro h_bare
    rw [written, if_neg (by simp [h_bare])]
  · intro h_zero
    rw [tokens_ofSource h_other]
    exact tokens_written h_zero
  · intro h_zero
    rw [tokens_ofSource h_other]
    exact tokens_written_of_zero h_zero

/-- A string with a mark, a quote, comment slashes and a control byte in front of a digit, which
comes byte by byte and which a writer puts between quotes. -/
theorem tokens_alone_iff_isBare_bytewise :
    let text : Bytes := Utf8.encode "\uFEFFa: \"b\" // \x1f0"
    let source : ScriptedSource := { schedule := { pieces := #[1] }, rest := text }
    let other : Slice := { rest := written text }
    let o : ReaderOptions := { bufferSize := 3, comments := true }
    (ofSource source o).tokens ≠ [.text text, .ended] ∧ written text = quoted text ∧
      (ofSource other o).tokens = [.text text, .ended] := by
  intro text source other o
  have h_source : Source.delivered source (max o.bufferSize 1) = (text, none) := by decide +kernel
  have h_other : Source.delivered other (max o.bufferSize 1) = (written text, none) :=
    Slice.delivered_eq _ _ (by decide)
  obtain ⟨h_alone, -, h_quoted, h_read, -⟩ :=
    tokens_alone_iff_isBare source other o o text h_source h_other
  have h_bare : isBare text = false := by decide +kernel
  refine ⟨?_, h_quoted h_bare, h_read (by decide +kernel)⟩
  rw [Ne, h_alone, h_bare]
  exact Bool.false_ne_true

end Stream
end PropertyText
