/-
  PropertyText.Proofs.Stream.Lines

  Lines are counted by what has been read.  The line of a stream is one more than the newlines
  among the bytes that have been stepped over, so behind a property it is the line on which the
  last token of the property ends, and every error carries the line of the place at which it
  was detected (`Stream.Detected`).  Main statement: `Stream.performAll_lines`.
-/
import PropertyText.Proofs.Stream.Demand

namespace PropertyText

open Grammar

namespace Stream

/-! ## Where an error is detected -/

/-- An error on the line of the place up to which the text has been read when it is detected.
A token, or the end of the text, is refused behind it; what is no token is refused behind the
byte that shows it; fetching the text has failed behind all that was fetched; and a violation
is found wherever reading has come to. -/
inductive Detected (comments atTop : Bool) (failure : Option String) (taken rest : Bytes) :
    Error → Prop
  | token {before text : Bytes} {token : Token} {wanted : Wanted} :
      taken = before ++ text → Reads comments text rest (.ok token) → wanted.Bars atTop token →
      Detected comments atTop failure taken rest
        (.malformed (1 + newlines taken) (wanted.refuses token))
  | fault {before text : Bytes} {cause : Malformation} :
      taken = before ++ text → Reads comments text rest (.error (.malformed cause)) →
      Detected comments atTop failure taken rest (.malformed (1 + newlines taken) cause)
  | mark :
      BrokenMark taken rest →
      Detected comments atTop failure taken rest (.malformed (1 + newlines taken) .brokenMark)
  | failed {message : String} :
      failure = some message → rest = [] →
      Detected comments atTop failure taken rest (.transfer (1 + newlines taken) message)
  | violated (cause : Violation) :
      Detected comments atTop failure taken rest (.violated (1 + newlines taken) cause)

theorem Detected.line {comments atTop : Bool} {failure : Option String} {taken rest : Bytes}
    {e : Error} (h : Detected comments atTop failure taken rest e) :
    e.line? = some (1 + newlines taken) := by
  cases h <;> rfl

/-! ## Where a stream stands in its text -/

/-- So much of a text has been read; a failure that stands behind it has not been met, unless an
error was recorded; and that was detected where reading has come to. -/
structure Located (whole : Bytes) (failure : Option String) (s : Stream Unread) (taken : Bytes) :
    Prop where
  whole : taken ++ s.input.bytes = whole
  line : s.input.line = 1 + newlines taken
  fresh : s.fresh = true → taken = []
  pending : s.error = none → s.input.failure = failure
  detected : ∀ e, s.error = some e →
    Detected s.comments s.atTop failure taken s.input.bytes e

theorem fresh_of_mode {ι : Type} {s : Stream ι} (h : s.mode = .fresh) : s.fresh = true := by
  unfold mode at h
  split at h
  · assumption
  · cases h

namespace Located

variable {whole taken : Bytes} {failure : Option String} {s : Stream Unread}

/-- A token that is read leads on to behind it. -/
theorem behind {input : Unread} {moved : Bytes} (h : Located whole failure s taken)
    (h_error : s.error = none) (h_bytes : s.input.bytes = moved ++ input.bytes)
    (h_line : input.line = s.input.line + newlines moved)
    (h_failure : input.failure = s.input.failure) :
    Located whole failure (s.behind input) (taken ++ moved) where
  whole := by
    rw [← h.whole, h_bytes, List.append_assoc]
    rfl
  line := by
    rw [newlines_append, ← Nat.add_assoc, ← h.line]
    exact h_line
  fresh := nofun
  pending _ := h_failure.trans (h.pending h_error)
  detected := by
    intro e h_some
    rw [error_behind, h_error] at h_some
    cases h_some

/-- An error is recorded where it is detected. -/
theorem failedAt {input : Unread} {moved : Bytes} {e : Error} (h : Located whole failure s taken)
    (h_bytes : s.input.bytes = moved ++ input.bytes)
    (h_line : input.line = s.input.line + newlines moved)
    (h_detected : Detected s.comments s.atTop failure (taken ++ moved) input.bytes e) :
    Located whole failure (s.failedAt input e) (taken ++ moved) where
  whole := by
    rw [← h.whole, h_bytes, List.append_assoc]
    rfl
  line := by
    rw [newlines_append, ← Nat.add_assoc, ← h.line]
    exact h_line
  fresh := nofun
  pending := nofun
  detected := by
    rintro e ⟨⟩
    exact h_detected

/-- An attempt to take a token moves on to behind it, or to where an error is detected. -/
theorem takeToken (h : Located whole failure s taken) (h_error : s.error = none) :
    (∃ token input taken', s.takeToken = (some token, s.behind input) ∧
        Located whole failure (s.behind input) taken' ∧
        ∃ before text, taken' = before ++ text ∧
          Reads s.comments text input.bytes (.ok token)) ∨
      ∃ input e taken', s.takeToken = (none, s.failedAt input e) ∧
        Located whole failure (s.failedAt input e) taken' := by
  rw [takeToken_of_none h_error]
  -- The machine fails to fetch, refuses a text, or reads a token.
  rcases h_scan : Token.scan s.comments s.mode s.input with ⟨fault | token, input⟩
  · refine Or.inr ⟨input, fault.onLine (Input.line input), ?_⟩
    cases fault with
    | failed message =>
      obtain ⟨moved, h_bytes, h_line, ⟨_, ⟨⟩, h_failure, h_nil⟩ | ⟨h_other, -⟩⟩ :=
        moved_of_scan h_scan
      · have h_total : input.line = 1 + newlines (taken ++ moved) := by
          rw [h_line, h.line, newlines_append, Nat.add_assoc]
        refine ⟨_, rfl, h.failedAt h_bytes h_line ?_⟩
        show Detected _ _ _ _ _ (.transfer input.line message)
        rw [h_total]
        exact .failed ((h.pending h_error).symm.trans h_failure) h_nil
      · exact absurd rfl (h_other message)
    | malformed cause =>
      obtain ⟨front, text, h_bytes, h_line, -, h_reads⟩ :=
        reads_of_scan_between s.isBetween_mode h_scan nofun
      have h_total : input.line = 1 + newlines (taken ++ (front ++ text)) := by
        rw [h_line, h.line, newlines_append taken, Nat.add_assoc]
      refine ⟨_, rfl, h.failedAt h_bytes h_line ?_⟩
      show Detected _ _ _ _ _ (.malformed input.line cause)
      rw [h_total]
      rcases h_reads with h_reads | ⟨h_fresh, h_mark, h_cause⟩
      · exact .fault (List.append_assoc taken front text).symm h_reads
      · -- Only a stream that has read nothing yet looks for a mark.
        obtain rfl := h.fresh (fresh_of_mode h_fresh)
        cases h_cause
        exact .mark h_mark
  · obtain ⟨front, text, h_bytes, h_line, -, h_reads | ⟨-, -, h_result⟩⟩ :=
      reads_of_scan_between s.isBetween_mode h_scan nofun
    · have h_failure : input.failure = s.input.failure := by
        obtain ⟨-, -, -, ⟨_, h_failed, -⟩ | ⟨-, h_same⟩⟩ := moved_of_scan h_scan
        · cases h_failed
        · exact h_same
      refine Or.inl ⟨token, input, _, rfl, h.behind h_error h_bytes h_line h_failure, ?_⟩
      exact ⟨taken ++ front, text, (List.append_assoc taken front text).symm, h_reads⟩
    · cases h_result

/-- A token that cannot stand where it was read is refused behind its end. -/
theorem refuse {input : Unread} {before text : Bytes} {token : Token}
    (h : Located whole failure (s.behind input) taken) (wanted : Wanted) (h_error : s.error = none)
    (h_taken : taken = before ++ text) (h_reads : Reads s.comments text input.bytes (.ok token))
    (h_bars : wanted.Bars s.atTop token) :
    Located whole failure ((s.behind input).refuse (wanted.refuses token)) taken := by
  rw [refuse_behind h_error]
  refine ⟨h.whole, h.line, nofun, nofun, ?_⟩
  rintro e ⟨⟩
  show Detected _ _ _ _ _ (.malformed input.line _)
  rw [show input.line = 1 + newlines taken from h.line]
  exact .token h_taken h_reads h_bars

theorem violate (h : Located whole failure s taken) (cause : Violation) :
    Located whole failure (s.violate cause) taken := by
  cases h_error : s.error with
  | some e =>
    have h_same : s.violate cause = s := by
      rw [Stream.violate, record, h_error, Option.some_or, ← h_error]
    rwa [h_same]
  | none =>
    have h_line : s.line = 1 + newlines taken := h.line
    rw [Stream.violate, record, h_error, Option.none_or, h_line]
    refine ⟨h.whole, h.line, h.fresh, fun h_none => absurd h_none (Option.some_ne_none _), ?_⟩
    rintro e ⟨⟩
    exact .violated cause

/-- Opening and closing objects, and coming to the end, read nothing. -/
theorem of_input_eq {s' : Stream Unread} (h : Located whole failure s taken)
    (h_error : s.error = none) (h_error' : s'.error = none) (h_input : s'.input = s.input)
    (h_fresh : s'.fresh = s.fresh) : Located whole failure s' taken where
  whole := by rw [h_input, h.whole]
  line := by rw [h_input, h.line]
  fresh := by rw [h_fresh]; exact h.fresh
  pending _ := by rw [h_input, h.pending h_error]
  detected := by
    intro e h_some
    rw [h_error'] at h_some
    cases h_some

theorem readContent (h : Located whole failure s taken) (h_error : s.error = none)
    (name : Bytes) : ∃ taken', Located whole failure (s.readContent name).2 taken' := by
  rcases h.takeToken h_error with
    ⟨token, input, taken₁, h_take, h_first, before, text, h_taken, h_reads⟩ |
    ⟨input, e, taken₁, h_take, h_first⟩
  · rw [Stream.readContent, h_take]
    cases token with
    | colon =>
      dsimp only
      rcases h_first.takeToken h_error with
        ⟨value, input₂, taken₂, h_value, h_second, before₂, text₂, h_taken₂, h_reads₂⟩ |
        ⟨input₂, e, taken₂, h_value, h_second⟩
      · rw [h_value]
        cases value with
        | text value => exact ⟨taken₂, h_second⟩
        | colon | openBrace | closeBrace | ended =>
          exact ⟨taken₂, h_second.refuse .value h_error h_taken₂ h_reads₂ trivial⟩
      · -- The complaint that follows does not displace the error of the token.
        rw [h_value]
        dsimp only
        rw [failedAt_behind] at h_second ⊢
        rw [refuse_failedAt]
        exact ⟨taken₂, h_second⟩
    | openBrace => exact ⟨taken₁, h_first.of_input_eq h_error h_error rfl rfl⟩
    | text _ | closeBrace | ended =>
      exact ⟨taken₁, h_first.refuse .content h_error h_taken h_reads trivial⟩
  · rw [Stream.readContent, h_take]
    dsimp only
    rw [refuse_failedAt]
    exact ⟨taken₁, h_first⟩

theorem readProperty (h : Located whole failure s taken) (h_error : s.error = none) :
    ∃ taken', Located whole failure s.readProperty.2 taken' := by
  rcases h.takeToken h_error with
    ⟨token, input, taken₁, h_take, h_first, before, text, h_taken, h_reads⟩ |
    ⟨input, e, taken₁, h_take, h_first⟩
  · rw [Stream.readProperty, h_take]
    cases token with
    | text name => exact h_first.readContent h_error name
    | closeBrace =>
      dsimp only
      cases h_top : (s.behind input).atTop with
      | true =>
        exact ⟨taken₁, h_first.refuse .name h_error h_taken h_reads h_top⟩
      | false => exact ⟨taken₁, h_first.of_input_eq h_error h_error rfl rfl⟩
    | ended =>
      dsimp only
      cases h_top : (s.behind input).atTop with
      | true => exact ⟨taken₁, h_first.of_input_eq h_error h_error rfl rfl⟩
      | false =>
        exact ⟨taken₁, h_first.refuse .name h_error h_taken h_reads h_top⟩
    | colon | openBrace =>
      exact ⟨taken₁, h_first.refuse .name h_error h_taken h_reads trivial⟩
  · rw [Stream.readProperty, h_take]
    exact ⟨taken₁, h_first⟩

end Located

/-- Every request leaves the stream at a place in its text, whose line it tells. -/
theorem located_invariant (whole : Bytes) (failure : Option String) :
    Invariant fun s : Stream Unread => ∃ taken, Located whole failure s taken where
  read := by
    rintro s h_run ⟨taken, h⟩
    exact h.readProperty h_run.1
  violate := by
    rintro s cause ⟨taken, h⟩
    exact ⟨taken, h.violate cause⟩

/-! ## Streams with a log -/

section

variable {σ : Type} [Source σ] {source : σ} {options : ReaderOptions}

/-- The place of a stream in what its source delivers is behind all that was stepped over. -/
def LocatedIn (source : σ) (options : ReaderOptions) (s : Stream (Traced σ)) : Prop :=
  Located (Source.delivered source (max options.bufferSize 1)).1
    (Source.delivered source (max options.bufferSize 1)).2
    (s.map fun t => t.reader.unread) (Log.taken s.input.log)

theorem Logged.locatedIn {s : Stream (Traced σ)} (h : Logged source options s)
    (h_some : ∃ taken, Located (Source.delivered source (max options.bufferSize 1)).1
      (Source.delivered source (max options.bufferSize 1)).2
      (s.map fun t => t.reader.unread) taken) : LocatedIn source options s := by
  -- Both are what stands in front of the bytes that are still unread.
  obtain ⟨taken, h_taken⟩ := h_some
  have h_same : taken = Log.taken s.input.log :=
    List.append_cancel_right (h_taken.whole.trans h.kept.whole.symm)
  rwa [h_same] at h_taken

theorem locatedIn_performAll (source : σ) (options : ReaderOptions) (calls : List Call) :
    LocatedIn source options ((traced source options).performAll calls).2 := by
  have h_logged := (Logged.invariant source options).performAll (logged_traced source options) calls
  apply h_logged.locatedIn
  have h_start : Located (Source.delivered source (max options.bufferSize 1)).1
      (Source.delivered source (max options.bufferSize 1)).2
      ((traced source options).map fun t => t.reader.unread) [] :=
    ⟨rfl, rfl, fun _ => rfl, fun _ => rfl, nofun⟩
  have h_end := (located_invariant _ _).performAll ⟨_, h_start⟩ calls
  rwa [performAll_map Traced.view_unread] at h_end

theorem LocatedIn.next {s : Stream (Traced σ)} (h_logged : Logged source options s)
    (h : LocatedIn source options s) (object : ObjectId) :
    LocatedIn source options (s.next object).2 := by
  apply ((Logged.invariant source options).next h_logged object).locatedIn
  have h_next := (located_invariant _ _).next ⟨_, h⟩ object
  rwa [next_map Traced.view_unread] at h_next

/-- The bytes that have been stepped over end with the last token of a property, and the line is
the one on which it ends. -/
def EndsOnLine (s : Stream (Traced σ)) (comments : Bool) (p : Property) : Prop :=
  ∃ before text raw last,
    Log.taken s.input.log = before ++ (text ++ raw) ∧
    Tokens comments (text ++ raw) p.event.tokens s.input.reader.unread.bytes ∧
    p.event.tokens.getLast? = some last ∧ Lexeme last raw ∧
    s.line = 1 + newlines (before ++ (text ++ raw))

theorem LocatedIn.endsOnLine {s s' : Stream (Traced σ)} (h_logged : Logged source options s)
    (h : LocatedIn source options s) {object : ObjectId} {p : Property}
    (h_next : s.next object = (some p, s')) : s'.EndsOnLine options.comments p := by
  have h_line := (h.next h_logged object).line
  rw [h_next] at h_line
  obtain ⟨before, text, -, -, -, h_taken, h_tokens, -⟩ := h_logged.endsWith h_next
  obtain ⟨tokens, last, h_concat, -⟩ := exists_tokens_concat p
  obtain ⟨front, raw, rfl, h_lexeme⟩ := Tokens.exists_last (h_concat ▸ h_tokens)
  refine ⟨before, front, raw, last, h_taken, h_tokens, ?_, h_lexeme, ?_⟩
  · rw [h_concat, List.getLast?_concat]
  · rw [← h_taken]
    exact h_line

/-- Line numbers are exact, whatever is requested.  The line of a stream is one more than the
newlines among the bytes that have been stepped over.  Behind a property that is handed out these
end with the last token of the property.  An error carries the line on which the stream stood
when it was detected: behind a token that cannot stand where it was read, or behind all that was
fetched if fetching fails. -/
theorem performAll_lines (source : σ) (options : ReaderOptions) (calls : List Call) :
    let start := traced source options
    let s := (start.performAll calls).2
    let delivered := Source.delivered source (max options.bufferSize 1)
    let taken := Log.taken s.input.log
    let rest := s.input.reader.unread.bytes
    (ofSource source options).performAll calls =
        ((start.performAll calls).1, s.map Traced.reader) ∧
      (taken ++ rest = delivered.1 ∧ s.line = 1 + newlines taken) ∧
      (∀ object p s', s.next object = (some p, s') → s'.EndsOnLine options.comments p) ∧
      ∀ e, s.error = some e →
        (e.line? = some s.line ∧
          Detected options.comments s.atTop delivered.2 taken rest e) ∧
        ∃ problem, (start.problems calls).head? = some problem ∧ problem.error = e ∧
          problem.input = s.input := by
  intro start s delivered taken rest
  have h_logged : Logged source options s :=
    (Logged.invariant source options).performAll (logged_traced source options) calls
  have h_located : LocatedIn source options s := locatedIn_performAll source options calls
  have h_line : s.line = 1 + newlines taken := h_located.line
  refine ⟨?_, ⟨h_logged.kept.whole, h_line⟩, ?_, ?_⟩
  · exact performAll_map (s := start) Traced.view_reader calls
  · intro object p s' h_next
    exact h_located.endsOnLine h_logged h_next
  · intro e h_error
    have h_detected := h_located.detected e h_error
    have h_finds : Finds start (start.problems calls) s := Finds.performAll start calls
    refine ⟨⟨?_, h_logged.comments ▸ h_detected⟩, ?_⟩
    · rw [h_line]
      exact h_detected.line
    · have h_first := h_finds.error
      rw [h_error] at h_first
      obtain ⟨problem, h_head, h_problem⟩ := Option.map_eq_some_iff.mp h_first.symm
      exact ⟨problem, h_head, h_problem, h_finds.still problem (List.mem_of_mem_head? h_head)⟩

end

/-- In `a:"\n" b:c\n}` the newline between the quotes counts when `a` is handed out, the one
behind the bare value does not yet when `b` is, and the brace is refused on the third line. -/
theorem performAll_lines_bytewise :
    let text : Bytes := [0x61, 0x3a, 0x22, 0x0a, 0x22, 0x20, 0x62, 0x3a, 0x63, 0x0a, 0x7d]
    let source : ScriptedSource := { schedule := { pieces := #[1] }, rest := text }
    let start := traced source {}
    let s := (start.performAll [.next 0]).2
    let t := (start.performAll [.next 0, .next 0, .next 0]).2
    let quoted : Property := ⟨[0x61], .text [0x0a]⟩
    let bare : Property := ⟨[0x62], .text [0x63]⟩
    ((start.next 0).1 = some quoted ∧ (start.next 0).2.EndsOnLine false quoted ∧
        (start.next 0).2.line = 2) ∧
      ((s.next 0).1 = some bare ∧ (s.next 0).2.EndsOnLine false bare ∧ (s.next 0).2.line = 2) ∧
      t.error = some (.malformed 3 .strayClose) ∧ t.line = 3 ∧
        Detected false t.atTop none (Log.taken t.input.log) t.input.reader.unread.bytes
          (.malformed 3 .strayClose) := by
  intro text source start s t quoted bare
  have h_quoted : (start.next 0).1 = some quoted := by decide +kernel
  have h_bare : (s.next 0).1 = some bare := by decide +kernel
  have h_error : t.error = some (.malformed 3 .strayClose) := by decide +kernel
  have h_delivered : (Source.delivered source 256).2 = none := by decide +kernel
  obtain ⟨-, -, h_start, -⟩ := performAll_lines source {} []
  obtain ⟨-, -, h_behind, -⟩ := performAll_lines source {} [.next 0]
  obtain ⟨-, -, -, h_end⟩ := performAll_lines source {} [.next 0, .next 0, .next 0]
  obtain ⟨⟨h_line, h_detected⟩, -⟩ := h_end _ h_error
  rw [show (Source.delivered source (max ({} : ReaderOptions).bufferSize 1)).2 = none from
    h_delivered] at h_detected
  refine ⟨⟨h_quoted, h_start 0 quoted _ (Prod.ext h_quoted rfl), by decide +kernel⟩,
    ⟨h_bare, h_behind 0 bare _ (Prod.ext h_bare rfl), by decide +kernel⟩, h_error,
    (Option.some.inj h_line).symm, h_detected⟩

end Stream
end PropertyText
