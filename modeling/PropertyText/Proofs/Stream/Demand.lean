/-
  PropertyText.Proofs.Stream.Demand

  Text is fetched on demand.  A stream that keeps a log (`Traced`) answers as any other one,
  and its log shows when the source was asked: never before all that it had brought was read,
  never for a byte that nothing needed, never behind its end or an error, and never behind the
  last token of a property, except for the byte that ends a bare string.  Main statement:
  `Stream.performAll_on_demand`.
-/
import PropertyText.Proofs.Grammar.Scan
import PropertyText.Proofs.Source.Traced
import PropertyText.Proofs.Stream.Invariant
import PropertyText.Proofs.Stream.Problems

namespace PropertyText

open Grammar

/-! ## Tokens that have been read -/

namespace Token.Scans

variable {comments : Bool} {mode : Mode} {tokens : List Token}

theorem map {ι κ : Type} [Input ι] [Input κ] {view : ι → κ} (h_view : Input.View view) {i j : ι}
    (h : Scans comments mode i tokens j) : Scans comments mode (view i) tokens (view j) := by
  induction h with
  | nil => exact .nil
  | cons h_token h_scan _ ih =>
    refine .cons h_token ?_ ih
    rw [scan_view h_view, h_scan]
    rfl

/-- The bytes that were stepped over are those of the tokens, a byte-order mark in front of
them aside. -/
theorem exists_tokens {u u' : Unread} (h : Scans comments mode u tokens u')
    (h_mode : mode.IsBetween) :
    ∃ front text, u.bytes = front ++ (text ++ u'.bytes) ∧ Tokens comments text tokens u'.bytes ∧
      (mode = .blank → front = []) := by
  induction h with
  | @nil mode u => exact ⟨[], [], rfl, .nil, fun _ => rfl⟩
  | cons h_token h_scan _ ih =>
    obtain ⟨front, separator, raw, h_bytes, h_separator, h_lexeme, h_maximal, h_front⟩ :=
      exists_lexeme_of_scan_between h_mode h_scan h_token
    -- Only in front of the first token a mark may stand.
    obtain ⟨none, text, h_rest, h_tokens, h_none⟩ := ih (Or.inr rfl)
    obtain rfl := h_none rfl
    rw [List.nil_append] at h_rest
    refine ⟨front, separator ++ raw ++ text, ?_, .cons h_separator h_lexeme ?_ h_tokens, h_front⟩
    · simp [h_bytes, h_rest]
    · rwa [← h_rest]

variable {σ : Type} [Source σ] {source : σ} {size : Nat} {whole : Bytes}

/-- What the log tells goes on to hold while tokens are read. -/
theorem kept {t t' : Traced σ} (h : Scans comments mode t tokens t') (h_mode : mode.IsBetween)
    (h_kept : Traced.Kept source size whole t) (h_needed : Log.Needed False t.log) :
    Traced.Kept source size whole t' ∧ Log.Needed False t'.log := by
  induction h with
  | nil => exact ⟨h_kept, h_needed⟩
  | @cons mode t t₁ t' token tokens h_token h_scan _ ih =>
    -- A token was read, and it is not the end of the text, so nothing was looked at in vain.
    have h_next := h_kept.scan comments mode
    have h_look := needed_scan_between h_needed comments h_mode
    rw [h_scan] at h_next h_look
    exact ih (Or.inr rfl) h_next (h_look.imp fun h_ended => h_token (h_ended token rfl))

end Token.Scans

namespace Stream

variable {σ : Type} [Source σ]

/-! ## Streams with a log -/

/-- A stream over a source that keeps a log. -/
def traced (source : σ) (options : ReaderOptions) : Stream (Traced σ) :=
  ofInput ⟨.ofSource source options.bufferSize, []⟩ options.comments

/-- What the log of a stream tells, wherever the stream has come to. -/
structure Logged (source : σ) (options : ReaderOptions) (s : Stream (Traced σ)) : Prop where
  comments : s.comments = options.comments
  kept : Traced.Kept source (max options.bufferSize 1)
    (Source.delivered source (max options.bufferSize 1)).1 s.input
  needed : Log.Needed (¬s.Running) s.input.log

theorem logged_traced (source : σ) (options : ReaderOptions) :
    Logged source options (traced source options) :=
  ⟨rfl, Traced.kept_start source _, Log.needed_nil _⟩

theorem Logged.invariant (source : σ) (options : ReaderOptions) :
    Invariant (Logged source options) where
  read := by
    intro s h_run h
    obtain ⟨tokens, ⟨h_comments, t, h_scans, h_end⟩, -⟩ := takes_readProperty h_run.1
    have h_needed := h.needed.imp fun h_stop => h_stop h_run
    obtain ⟨h_kept, h_needed⟩ := h_scans.kept s.isBetween_mode h.kept h_needed
    rcases h_end with h_input | ⟨h_stop, mode, h_mode, h_input⟩
    · rw [← h_input] at h_kept h_needed
      exact ⟨h_comments.trans h.comments, h_kept, h_needed.imp False.elim⟩
    · -- The attempt at one more token is the last thing in the log.
      have h_last := Token.needed_scan_between h_needed s.comments h_mode
      refine ⟨h_comments.trans h.comments, ?_, ?_⟩
      · rw [h_input]
        exact h_kept.scan _ _
      · rw [h_input]
        exact h_last.imp fun _ => h_stop
  violate := by
    intro s cause h
    exact ⟨h.comments, h.kept, h.needed.imp fun _ => not_running_violate s cause⟩

/-! ## Properties that have been read -/

/-- The bytes that have been stepped over end with the tokens of a property.  Behind the last
of them at most one more has been looked at, and that only behind a bare value. -/
def EndsWith (s : Stream (Traced σ)) (comments : Bool) (p : Property) : Prop :=
  ∃ before text last log back,
    Log.taken s.input.log = before ++ text ∧
    Tokens comments text p.event.tokens s.input.reader.unread.bytes ∧
    text.getLast? = some last ∧ s.input.log = log ++ .took last :: back ∧
    (back = [] ∨ (∃ bytes look, back = [.looked bytes look]) ∧
      ∃ value, p.content = .text value ∧ isBare value = true ∧ value <:+ text)

/-- The last token of a property is its value or the brace that opens its object. -/
theorem exists_tokens_concat (p : Property) :
    ∃ tokens token, p.event.tokens = tokens ++ [token] ∧
      ∀ value, token = .text value → p.content = .text value := by
  obtain ⟨name, content⟩ := p
  cases content with
  | text value =>
    refine ⟨[.text name, .colon], .text value, rfl, ?_⟩
    rintro value ⟨⟩
    rfl
  | object id => exact ⟨[.text name], .openBrace, rfl, nofun⟩

theorem Logged.endsWith {source : σ} {options : ReaderOptions} {s s' : Stream (Traced σ)}
    (h : Logged source options s) {object : ObjectId} {p : Property}
    (h_next : s.next object = (some p, s')) : s'.EndsWith options.comments p := by
  rcases (Logged.invariant source options).next_cases h object with
    ⟨s₁, -, h_none⟩ | ⟨s₁, h_s₁, h_run, h_read⟩
  · rw [h_none] at h_next
    cases h_next
  rw [h_next] at h_read
  obtain ⟨tokens, ⟨-, t, h_scans, h_end⟩, h_tokens⟩ := takes_readProperty h_run.1
  rw [← h_read] at h_end h_tokens
  obtain rfl := h_tokens p rfl
  -- The stream goes on, so no token has been tried behind those of the property.
  obtain rfl : s'.input = t :=
    h_end.resolve_right fun h_stop => h_stop.1 (running_of_some h_run h_read.symm)
  obtain ⟨h_kept, h_needed⟩ := h_scans.kept s₁.isBetween_mode h_s₁.kept
    (h_s₁.needed.imp fun h_stop => h_stop h_run)
  obtain ⟨front, text, h_bytes, h_text, -⟩ :=
    (h_scans.map Traced.view_unread).exists_tokens s₁.isBetween_mode
  -- What was stepped over and what is unread make up the same text before and after.
  have h_taken : Log.taken s'.input.log = Log.taken s₁.input.log ++ front ++ text := by
    have h_whole := h_kept.whole.trans h_s₁.kept.whole.symm
    rw [h_bytes, ← List.append_assoc, ← List.append_assoc] at h_whole
    exact List.append_cancel_right h_whole
  obtain ⟨tokens, token, h_concat, h_value⟩ := exists_tokens_concat p
  obtain ⟨start, raw, rfl, h_lexeme⟩ := Tokens.exists_last (h_concat ▸ h_text)
  have h_last := List.getLast?_eq_some_getLast h_lexeme.ne_nil
  have h_last_text (before : Bytes) :
      (before ++ raw).getLast? = some (raw.getLast h_lexeme.ne_nil) := by
    rw [List.getLast?_append, h_last, Option.some_or]
  have h_last_taken : (Log.taken s'.input.log).getLast? = some (raw.getLast h_lexeme.ne_nil) := by
    rw [h_taken, ← List.append_assoc, h_last_text]
  obtain ⟨log, back, h_log, h_back⟩ := h_needed.last_took h_last_taken
  refine ⟨_, _, _, log, back, h_taken, h_s₁.comments ▸ h_text, h_last_text start, h_log, ?_⟩
  refine Or.imp_right ?_ h_back
  rintro ⟨h_byte, h_look⟩
  obtain ⟨rfl, h_bare⟩ := h_lexeme.bare_of_getLast h_last h_byte
  exact ⟨h_look, raw, h_value raw rfl, h_bare, List.suffix_append _ _⟩

/-- Text is fetched on demand, whatever is requested.  A log of all that is done does not change
the answers, and no request to the source is missing in it.  The source is asked only where all
bytes that it has brought have been stepped over and where it has neither come to its end nor
failed, and every byte is looked at because it is needed.  Behind the first error nothing is
done any more.  Where a property is handed out, the bytes that have been stepped over end with
its last token. -/
theorem performAll_on_demand (source : σ) (options : ReaderOptions) (calls : List Call) :
    let start := traced source options
    let s := (start.performAll calls).2
    let size := max options.bufferSize 1
    ((ofSource source options).performAll calls =
        ((start.performAll calls).1, s.map Traced.reader) ∧
      Source.brought source size (Log.brought s.input.log).length =
        (Log.brought s.input.log, s.input.reader.source)) ∧
    (Log.Asked s.input.log ∧ Log.Needed (¬s.Running) s.input.log) ∧
    (s.error = (start.problems calls).head?.map Problem.error ∧
      (∀ problem ∈ start.problems calls, problem.input = s.input) ∧
      (s.error ≠ none → ∀ more, (s.performAll more).2 = s)) ∧
    ∀ object p s', s.next object = (some p, s') → s'.EndsWith options.comments p := by
  intro start s size
  have h_logged : Logged source options s :=
    (Logged.invariant source options).performAll (logged_traced source options) calls
  have h_finds : Finds start (start.problems calls) s := Finds.performAll start calls
  refine ⟨⟨?_, h_logged.kept.brought⟩, ⟨h_logged.kept.asked, h_logged.needed⟩,
    ⟨?_, h_finds.still, ?_⟩, ?_⟩
  · exact performAll_map (s := start) Traced.view_reader calls
  · rw [h_finds.error]
    rfl
  · intro h_error more
    exact (Finds.performAll s more).frozen h_error
  · intro object p s' h_next
    exact h_logged.endsWith h_next

/-- In `a:b c:"d"`, handed over byte by byte, the blank behind `b` is fetched to see where the
bare value ends; behind the closing quote nothing is, although the end has not been seen. -/
theorem performAll_on_demand_bytewise :
    let text : Bytes := [0x61, 0x3a, 0x62, 0x20, 0x63, 0x3a, 0x22, 0x64, 0x22]
    let source : ScriptedSource := { schedule := { pieces := #[1] }, rest := text }
    let start := traced source {}
    let s := (start.performAll [.next 0]).2
    let bare : Property := ⟨[0x61], .text [0x62]⟩
    let quoted : Property := ⟨[0x63], .text [0x64]⟩
    ((start.next 0).1 = some bare ∧ (start.next 0).2.EndsWith false bare ∧
      Log.brought (start.next 0).2.input.log = [[0x61], [0x3a], [0x62], [0x20]]) ∧
    (s.next 0).1 = some quoted ∧ (s.next 0).2.EndsWith false quoted ∧
      (Log.brought (s.next 0).2.input.log).flatten = text ∧
      (s.next 0).2.input.log.getLast? = some (.took Ascii.quote) := by
  intro text source start s bare quoted
  have h_bare : (start.next 0).1 = some bare := by decide +kernel
  have h_quoted : (s.next 0).1 = some quoted := by decide +kernel
  obtain ⟨-, -, -, h_start⟩ := performAll_on_demand source {} []
  obtain ⟨-, -, -, h_behind⟩ := performAll_on_demand source {} [.next 0]
  refine ⟨⟨h_bare, h_start 0 bare _ (Prod.ext h_bare rfl), ?_⟩, h_quoted,
    h_behind 0 quoted _ (Prod.ext h_quoted rfl), ?_, ?_⟩
  · decide +kernel
  · decide +kernel
  · decide +kernel

end Stream
end PropertyText
