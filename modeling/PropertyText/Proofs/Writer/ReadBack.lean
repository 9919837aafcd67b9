/-
  PropertyText.Proofs.Writer.ReadBack

  What a writer is given, a reader finds: the same events with the same bytes, whether or
  not every object has been ended.  Where objects are still open, the reader meets the end
  of the text behind the last event and says so.  Main statement:
  `Writer.read_written_events`.
-/
import PropertyText.Proofs.Fields.RoundTrip

namespace PropertyText

open Grammar

/-! ## Reading up to the end of the text -/

namespace Stream

/-- What is recorded when the text ends on a line with so many objects open. -/
def endError (depth line : Nat) : Option Error :=
  if depth = 0 then none else some (.malformed line .unexpectedEnd)

variable {comments : Bool} {text rest : Bytes} {line depth : Nat}

/-- Where nothing but a trailer stands, no event is left; an open object is a fault. -/
theorem Ahead.remaining_ended {s : Stream Unread} (h : s.Ahead comments [] rest line)
    (h_trailer : Trailer comments rest) (h_path : s.path.length = depth + 1) :
    ∃ s', s.remaining = ([], s') ∧ s'.path.length = depth + 1 ∧
      s'.error = endError depth (line + newlines rest) := by
  obtain ⟨input, h_take, h_line⟩ := h.takeToken_trailer h_trailer
  have h_top : s.atTop = (depth == 0) := atTop_of_length h_path
  cases depth with
  | zero =>
    have h_read : s.readProperty = (none, { s.behind input with finished := true }) := by
      rw [readProperty, h_take]
      dsimp only
      rw [atTop_behind, h_top]
      rfl
    have h_event : s.readEvent = (none, { s.behind input with finished := true }) := by
      rw [Stream.readEvent, if_pos h.running, h_read]
      simp [Running]
    exact ⟨_, remaining_of_none h_event, h_path, h.running.1⟩
  | succ depth =>
    have h_read : s.readProperty =
        (none, s.failedAt input (.malformed input.line .unexpectedEnd)) := by
      rw [readProperty, h_take]
      dsimp only
      rw [atTop_behind, h_top, refuse_behind h.running.1]
      rfl
    have h_event : s.readEvent =
        (none, s.failedAt input (.malformed input.line .unexpectedEnd)) := by
      rw [Stream.readEvent, if_pos h.running, h_read]
      simp [Running, failedAt]
    refine ⟨_, remaining_of_none h_event, h_path, ?_⟩
    rw [← h_line]
    rfl

/-- A text that reads as events is read as these events up to its end. -/
theorem remaining_of_reading {events : List (Event Bytes)}
    (h : Reading comments text (events.flatMap Event.tokens) none)
    (h_head : text.head? ≠ some 0xef) (h_depth : Event.depthAfter 0 events = some depth) :
    ∃ s', (ofInput ({ bytes := text } : Unread) comments).remaining = (events, s') ∧
      s'.path.length = depth + 1 ∧ s'.error = endError depth (1 + newlines text) := by
  obtain ⟨taken, rest, inner, rfl, h_tokens, h_none, h_ends⟩ := h.exists_tokens
  obtain rfl : inner = none := by
    cases inner with
    | none => rfl
    | some fault => cases h_none
  have h_start : Start comments taken (events.flatMap Event.tokens ++ []) rest := by
    rw [List.append_nil]
    exact .intro (.none h_head) h_tokens
  obtain ⟨s₁, h_remaining, h_ahead, h_path⟩ := (ahead_ofInput h_start).remaining rfl h_depth
  obtain ⟨s', h_ended, h_path', h_error⟩ := h_ahead.remaining_ended h_ends h_path
  refine ⟨s', ?_, h_path', ?_⟩
  · rw [h_remaining, h_ended]
    simp
  · rw [h_error, newlines_append, Nat.add_assoc]

end Stream

/-! ## Reading what was written -/

theorem reading_rendered {events : List (Event Bytes)}
    (h_nul : ∀ e ∈ events, ∀ s ∈ e.texts, 0 ∉ s) (comments : Bool) (indent : Indent) :
    Reading comments (rendered indent 0 events) (events.flatMap Event.tokens) none := by
  have h_end : Reading comments [] [] none := .trailer (.separator .nil)
  have h_read : Reading comments (rendered indent 0 events ++ []) _ _ := h_end.rendered h_nul 0
  rw [List.append_nil, List.append_nil] at h_read
  exact h_read

namespace Writer

/-- The events that a writer is given are the events that a reader finds, with the same bytes
in their names and values, whatever the layout, the buffers and the pieces in which the text
is delivered.  If every object is ended the reader comes to the end without an error.  If
not, all events are found, and the end of the text is recorded as a fault on its last
line; a walk then closes the objects that it has entered. -/
theorem read_written_events {σ τ : Type} [Sink σ] [Source τ] {held : σ → Bytes}
    (h_sink : Sink.TakesAll held) {sink : σ} (h_start : held sink = []) (w : WriterOptions)
    (o : ReaderOptions) {events : List (Event Bytes)} {depth : Nat}
    (h_depth : Event.depthAfter 0 events = some depth)
    (h_nul : ∀ e ∈ events, ∀ s ∈ e.texts, 0 ∉ s) :
    ∃ s, ((ofSink sink w).putAll events).finish = .ok s ∧
      ∀ source : τ, Source.delivered source (max o.bufferSize 1) = (held s, none) →
        ∃ last, (Stream.ofSource source o).remaining = (events, last) ∧
          (Stream.ofSource source o).walk rootId =
            (events ++ List.replicate depth .closed, last) ∧
          (depth = 0 → last.error = none) ∧
          (depth ≠ 0 → last.error = some (.malformed (1 + newlines (held s)) .unexpectedEnd) ∧
            Malformation.unexpectedEnd.message = "unexpected EOF") := by
  have h_written := (holds_ofSink h_start w).putAll h_sink h_depth
  rw [List.nil_append] at h_written
  obtain ⟨h_flush, h_held⟩ := h_written.flush h_sink
  refine ⟨_, finish_of_flush h_flush.error, fun source h_source => ?_⟩
  rw [h_held] at h_source ⊢
  -- The text is read as if it stood ready in one piece.
  have h_view : (Stream.ofSource source o).map ReadAhead.unread =
      Stream.ofInput { bytes := rendered w.indent 0 events } o.comments := by
    rw [ReadAhead.map_unread_ofSource, h_source]
  obtain ⟨ready, h_ready, h_path, h_error⟩ := Stream.remaining_of_reading
    (reading_rendered h_nul o.comments w.indent) (head_rendered h_depth) h_depth
  rw [← h_view, Stream.remaining_map ReadAhead.view_unread] at h_ready
  obtain ⟨h_events, rfl⟩ := Prod.mk.inj h_ready
  have h_walk := Stream.walkOnto_eq_remaining (Stream.ofSource source o) [] ⟨rfl, rfl⟩
    (List.cons_ne_nil _ _)
  refine ⟨_, Prod.ext h_events rfl, ?_, ?_, ?_⟩
  · rw [Stream.path_map] at h_path
    rw [h_path, show (Stream.ofSource source o).remaining.1 = events from h_events] at h_walk
    exact h_walk
  · rintro rfl
    exact h_error
  · intro h_open
    rw [Stream.endError, if_neg h_open] at h_error
    exact ⟨h_error, rfl⟩

/-- An object that is not ended, with a name that is no text, an empty name and a value in
need of escapes, written three bytes at a time and read one byte at a time. -/
theorem read_written_unclosed_object :
    let events : List (Event Bytes) := [.opened [0xff, 0x20], .field [] [0x01, 0x22, 0x5c]]
    (Event.depthAfter 0 events = some 1 ∧ ∀ e ∈ events, ∀ s ∈ e.texts, 0 ∉ s) ∧
      ∃ s, ((ofSink ({} : Collected) { bufferSize := 3 }).putAll events).finish = .ok s ∧
        ∃ last, (Stream.ofSource ({ rest := s.bytes.toList } : Slice) { bufferSize := 1 }).walk
            rootId = (events ++ [.closed], last) ∧
          last.error = some (.malformed (1 + newlines s.bytes.toList) .unexpectedEnd) := by
  intro events
  have h_depth : Event.depthAfter 0 events = some 1 := rfl
  have h_nul : ∀ e ∈ events, ∀ s ∈ e.texts, 0 ∉ s := by decide
  have h_start : (fun s : Collected => s.bytes.toList) {} = [] := rfl
  obtain ⟨s, h_finish, h_read⟩ := read_written_events (τ := Slice) Collected.takesAll h_start
    { bufferSize := 3 } { bufferSize := 1 } h_depth h_nul
  obtain ⟨last, -, h_walk, -, h_error⟩ :=
    h_read { rest := s.bytes.toList } (Slice.delivered_eq _ _ (by decide))
  exact ⟨⟨h_depth, h_nul⟩, s, h_finish, last, h_walk, (h_error (by decide)).1⟩

end Writer
end PropertyText
