/-
  PropertyText.Proofs.Writer.Buffering

  Writing through a buffer comes to the same as writing at once.  As long as nothing fails,
  the sink and the buffer together hold the plain text of the events (`plain`); when
  something fails, the sink holds a front part of that text (`Writer.Tracks`).  Each piece of
  text that is pushed keeps this, wherever the buffer is handed over and however much the
  sink takes.  Main statement: `Writer.performAll_tracks_plain`.
-/
import PropertyText.Proofs.Sink.Kept
import PropertyText.Proofs.Writer.Rendering
import PropertyText.Proofs.Writer.Stopped

namespace PropertyText

/-- The text of an event at a nesting level.  An end to which no beginning belongs has none. -/
def Event.text (indent : Indent) : Nat → Event Bytes → Bytes
  | 0, .closed => []
  | level, e => e.line indent level

theorem Event.text_of_ne {e : Event Bytes} (h : e ≠ .closed) (indent : Indent) (level : Nat) :
    e.text indent level = e.line indent level := by
  cases e with
  | closed => exact absurd rfl h
  | _ => cases level <;> rfl

/-- The texts of events one after the other, from a nesting level on. -/
def plain (indent : Indent) : Nat → List (Event Bytes) → Bytes
  | _, [] => []
  | level, e :: events => e.text indent level ++ plain indent (e.levelAfter level) events

theorem plain_append (indent : Indent) (level : Nat) (a b : List (Event Bytes)) :
    plain indent level (a ++ b) =
      plain indent level a ++ plain indent (a.foldl Event.levelAfter level) b := by
  induction a generalizing level with
  | nil => rfl
  | cons e a ih => rw [List.cons_append, plain, plain, ih, List.append_assoc, List.foldl_cons]

theorem plain_singleton (indent : Indent) (level : Nat) (e : Event Bytes) :
    plain indent level [e] = e.text indent level := List.append_nil _

namespace Writer

variable {σ : Type} {held : σ → Bytes} {indent : Indent} {capacity level : Nat} {w : Writer σ}
  {text : Bytes}

/-! ## What a writer has come to -/

/-- The writer has written a text, and its buffer is not full. -/
structure Ready (held : σ → Bytes) (indent : Indent) (capacity : Nat) (w : Writer σ)
    (level : Nat) (text : Bytes) : Prop extends w.Holds held indent level text where
  capacity_eq : w.capacity = capacity
  room : w.buffer.size < capacity

/-- The writer has failed, and the sink has taken a front part of a text. -/
structure Failed (held : σ → Bytes) (w : Writer σ) (text : Bytes) : Prop where
  error : w.error ≠ none
  taken : held w.sink <+: text

/-- The writer has written a text, or it has failed at it. -/
def Tracks (held : σ → Bytes) (indent : Indent) (capacity : Nat) (w : Writer σ) (level : Nat)
    (text : Bytes) : Prop :=
  w.Ready held indent capacity level text ∨ w.Failed held text

theorem Failed.extend (h : w.Failed held text) (more : Bytes) : w.Failed held (text ++ more) :=
  ⟨h.error, h.taken.trans (List.prefix_append _ _)⟩

theorem ready_ofSink {sink : σ} (h : held sink = []) (options : WriterOptions) :
    (ofSink sink options).Ready held options.indent (max options.bufferSize 1) 0 [] :=
  ⟨holds_ofSink h options, rfl, Nat.lt_of_lt_of_le Nat.zero_lt_one (Nat.le_max_right _ _)⟩

variable [Sink σ]

/-! ## Handing over -/

/-- The sink takes the buffer, or a front part of it and the writer fails. -/
theorem Holds.drain_cases (h_sink : Sink.Keeps held) (h : w.Holds held indent level text) :
    w.drain.Holds held indent level text ∧ w.drain.capacity = w.capacity ∧ w.drain.buffer = #[] ∨
      w.drain.Failed held text := by
  rw [Writer.drain]
  by_cases h_empty : w.buffer = #[]
  · rw [if_pos (by simp [h_empty])]
    exact Or.inl ⟨h, rfl, h_empty⟩
  · rw [if_neg (by simp [h.error, h_empty])]
    obtain ⟨taken, h_prefix, h_taken, h_all⟩ := h_sink.writeAll w.sink w.buffer.toList
    dsimp only
    cases h_failure : (Sink.writeAll w.sink w.buffer.toList).1 with
    | none =>
      refine Or.inl ⟨⟨h.error, h.indent_eq, h.level_eq, ?_, h.line_eq⟩, rfl, rfl⟩
      rw [h_all h_failure] at h_taken
      rw [← h.text_eq]
      exact (List.append_nil _).trans h_taken
    | some message =>
      refine Or.inr ⟨by simp [recordTransfer, record, h.error], ?_⟩
      rw [← h.text_eq]
      show held (Sink.writeAll w.sink w.buffer.toList).2 <+: _
      rw [h_taken]
      exact (List.prefix_append_right_inj _).mpr h_prefix

namespace Tracks

/-- A piece of text is added to the text written. -/
theorem push (h_sink : Sink.Keeps held) (h : w.Tracks held indent capacity level text)
    (more : Bytes) : (w.push more).Tracks held indent capacity level (text ++ more) := by
  rcases h with h | h
  · rw [Writer.push]
    rw [if_neg (by simp [h.error])]
    dsimp only
    split
    · rcases (h.buffered more).drain_cases h_sink with ⟨h_holds, h_capacity, h_buffer⟩ | h_failed
      · -- The buffer is empty now, and it was not full before, so there is room in it.
        refine Or.inl ⟨h_holds, h_capacity.trans h.capacity_eq, ?_⟩
        rw [h_buffer]
        exact Nat.zero_lt_of_lt h.room
      · exact Or.inr h_failed
    · rename_i h_room
      rw [Nat.not_le] at h_room
      exact Or.inl ⟨h.buffered more, h.capacity_eq, h.capacity_eq ▸ h_room⟩
  · rw [push_of_error h.error]
    exact Or.inr (h.extend more)

theorem appends (h_sink : Sink.Keeps held) (indent : Indent) (capacity : Nat) :
    Appends indent fun w level text => w.Tracks held indent capacity level text where
  push h more := h.push h_sink more
  pushIndent {w} _ _ h := by
    rcases h with h | h
    · rw [Writer.pushIndent, h.indent_eq, h.level_eq]
      exact push h_sink (Or.inl h) _
    · rw [pushIndent_of_error h.error]
      exact Or.inr (h.extend _)
  deeper h := by
    rcases h with h | h
    · rw [h.level_eq]
      exact Or.inl ⟨h.atLevel _, h.capacity_eq, h.room⟩
    · exact Or.inr ⟨h.error, h.taken⟩

/-- An event adds its text. -/
theorem put (h_sink : Sink.Keeps held) (h : w.Tracks held indent capacity level text)
    (e : Event Bytes) :
    (w.put e).Tracks held indent capacity (e.levelAfter level) (text ++ e.text indent level) := by
  have h_appends := appends h_sink indent capacity
  by_cases h_e : e = .closed
  · subst h_e
    rcases h with h | h
    · cases level with
      | zero =>
        -- Nothing is handed over; what the sink has taken before is a front part of the text.
        rw [Writer.put, endObject, if_neg (by simp [h.error]), h.level_eq]
        refine Or.inr ⟨by simp [record, h.error], ?_⟩
        show held w.sink <+: text ++ []
        rw [List.append_nil, ← h.text_eq]
        exact List.prefix_append _ _
      | succ outer =>
        exact h_appends.endObject h.error h.level_eq
          (Or.inl ⟨h.atLevel outer, h.capacity_eq, h.room⟩)
    · rw [put_of_error h.error]
      exact Or.inr ⟨h.error, (h.extend _).taken⟩
  · rw [Event.text_of_ne h_e]
    exact h_appends.put h h_e

/-- Events add their texts. -/
theorem putAll (h_sink : Sink.Keeps held) (h : w.Tracks held indent capacity level text)
    (events : List (Event Bytes)) :
    (w.putAll events).Tracks held indent capacity (events.foldl Event.levelAfter level)
      (text ++ plain indent level events) := by
  induction events generalizing w level text with
  | nil =>
    rw [plain, List.append_nil]
    exact h
  | cons e events ih =>
    rw [plain, ← List.append_assoc]
    exact ih (h.put h_sink e)

end Tracks

/-- Flushing leaves the buffer empty and hands all text to the sink, or fails. -/
theorem Ready.flush_cases (h_sink : Sink.Keeps held)
    (h : w.Ready held indent capacity level text) :
    w.flush.Ready held indent capacity level text ∧ held w.flush.sink = text ∨
      w.flush.Failed held text := by
  unfold Writer.flush
  dsimp only
  rcases h.drain_cases h_sink with ⟨h_holds, h_capacity, h_buffer⟩ | h_failed
  · have h_sunk : held w.drain.sink = text := by
      rw [← h_holds.text_eq, h_buffer]
      exact (List.append_nil _).symm
    have h_held : held (Sink.flush w.drain.sink).2 = text := (h_sink.flush _).trans h_sunk
    rw [if_neg (by simp [h_holds.error])]
    cases h_failure : (Sink.flush w.drain.sink).1 with
    | none =>
      refine Or.inl ⟨⟨⟨h_holds.error, h_holds.indent_eq, h_holds.level_eq, ?_, h_holds.line_eq⟩,
        h_capacity.trans h.capacity_eq, ?_⟩, h_held⟩
      · show held (Sink.flush w.drain.sink).2 ++ w.drain.buffer.toList = text
        rw [h_buffer]
        exact (List.append_nil _).trans h_held
      · show w.drain.buffer.size < capacity
        rw [h_buffer]
        exact Nat.zero_lt_of_lt h.room
    | some message =>
      refine Or.inr ⟨by simp [recordTransfer, record, h_holds.error], ?_⟩
      show held (Sink.flush w.drain.sink).2 <+: text
      exact h_held ▸ List.prefix_refl _
  · rw [if_pos (Option.isSome_iff_ne_none.mpr h_failed.error)]
    exact Or.inr h_failed

/-- A writer that is finished without an error has handed over its text. -/
theorem Ready.held_of_finish (h_sink : Sink.Keeps held)
    (h : w.Ready held indent capacity level text) {s : σ} (h_finish : w.finish = .ok s) :
    held s = text := by
  rcases h.flush_cases h_sink with ⟨h_flush, h_held⟩ | h_flush
  · rw [finish_of_flush h_flush.error] at h_finish
    obtain rfl := Except.ok.inj h_finish
    exact h_held
  · obtain ⟨e, h_error⟩ := Option.ne_none_iff_exists'.mp h_flush.error
    rw [finish, h_error] at h_finish
    cases h_finish

/-! ## Many requests -/

/-- A request adds the texts of its events. -/
theorem Ready.perform (h_sink : Sink.Keeps held) (h : w.Ready held indent capacity level text)
    (call : Call) :
    (w.perform call).Tracks held indent capacity (call.events.foldl Event.levelAfter level)
      (text ++ plain indent level call.events) := by
  cases call with
  | put e =>
    rw [Call.events, plain_singleton]
    exact Tracks.put h_sink (Or.inl h) e
  | putFields f => exact Tracks.putAll h_sink (Or.inl h) _
  | flush =>
    rw [Call.events, plain, List.append_nil]
    exact (h.flush_cases h_sink).imp And.left id

/-- Requests add the texts of their events, up to the first that fails. -/
theorem Ready.performAll (h_sink : Sink.Keeps held)
    (h : w.Ready held indent capacity level text) (calls : List Call) :
    (∃ level', (w.performAll calls).Ready held indent capacity level'
        (text ++ plain indent level (calls.flatMap Call.events))) ∨
      ∃ front call back, calls = front ++ call :: back ∧ (w.performAll front).error = none ∧
        (w.performAll (front ++ [call])).Failed held
          (text ++ plain indent level ((front ++ [call]).flatMap Call.events)) := by
  induction calls generalizing w level text with
  | nil => exact Or.inl ⟨level, by simpa [plain] using h⟩
  | cons call calls ih =>
    rcases h.perform h_sink call with h_ready | h_failed
    · rcases ih h_ready with ⟨level', h_run⟩ | ⟨front, stop, back, rfl, h_none, h_stop⟩
      · refine Or.inl ⟨level', ?_⟩
        rw [List.flatMap_cons, plain_append, ← List.append_assoc]
        exact h_run
      · refine Or.inr ⟨call :: front, stop, back, rfl, h_none, ?_⟩
        rw [List.cons_append, List.flatMap_cons, plain_append, ← List.append_assoc]
        exact h_stop
    · refine Or.inr ⟨[], call, calls, rfl, h.error, ?_⟩
      rw [List.nil_append, List.flatMap_singleton]
      exact h_failed

/-- A writer without an error has written the plain text of all requests. -/
theorem ready_performAll (h_sink : Sink.Keeps held) {sink : σ} (h_start : held sink = [])
    (options : WriterOptions) {calls : List Call}
    (h_error : ((ofSink sink options).performAll calls).error = none) :
    ∃ level, ((ofSink sink options).performAll calls).Ready held options.indent
      (max options.bufferSize 1) level (plain options.indent 0 (calls.flatMap Call.events)) := by
  rcases (ready_ofSink h_start options).performAll h_sink calls with
    h_ready | ⟨front, call, back, rfl, -, h_failed⟩
  · exact h_ready
  · have h_back := performAll_of_error h_failed.error back
    rw [← performAll_append, List.append_assoc, List.singleton_append] at h_back
    rw [h_back] at h_error
    exact absurd h_error h_failed.error

/-- A writer that is finished without an error has handed over the plain text of all requests. -/
theorem held_of_finish_performAll (h_sink : Sink.Keeps held) {sink : σ} (h_start : held sink = [])
    (options : WriterOptions) {calls : List Call} {s : σ}
    (h_finish : ((ofSink sink options).performAll calls).finish = .ok s) :
    held s = plain options.indent 0 (calls.flatMap Call.events) := by
  cases h_error : ((ofSink sink options).performAll calls).error with
  | some e =>
    rw [finish_of_error h_error] at h_finish
    cases h_finish
  | none =>
    obtain ⟨level, h_ready⟩ := ready_performAll h_sink h_start options h_error
    exact h_ready.held_of_finish h_sink h_finish

/-- Whatever the buffer and the sink: as long as no error is recorded, the sink and the buffer
hold the plain text of all requests, the buffer is not full, and the line is that of the text;
a writer that is finished without an error has handed over that text.  Once an error is
recorded, the sink holds a front part of the text up to the request that failed, and it is
not touched again. -/
theorem performAll_tracks_plain (h_sink : Sink.Keeps held) {sink : σ} (h_start : held sink = [])
    (options : WriterOptions) (calls : List Call) :
    let start := ofSink sink options
    let w := start.performAll calls
    let text (calls : List Call) := plain options.indent 0 (calls.flatMap Call.events)
    (w.error = none →
      held w.sink ++ w.buffer.toList = text calls ∧ w.buffer.size < max 1 options.bufferSize ∧
        w.line = 1 + newlines (text calls)) ∧
      (∀ s, w.finish = .ok s → held s = text calls) ∧
      (w.error ≠ none →
        ∃ front call back, calls = front ++ call :: back ∧ (start.performAll front).error = none ∧
          (start.performAll (front ++ [call])).error = w.error ∧
          w.sink = (start.performAll (front ++ [call])).sink ∧
          held w.sink <+: text (front ++ [call])) := by
  intro start w text
  have h_run := (ready_ofSink h_start options).performAll h_sink calls
  simp only [List.nil_append] at h_run
  rcases h_run with ⟨level, h_ready⟩ | ⟨front, call, back, rfl, h_front, h_failed⟩
  · refine ⟨fun _ => ⟨h_ready.text_eq, Nat.max_comm _ _ ▸ h_ready.room, h_ready.line_eq⟩, ?_,
      fun h_error => absurd h_ready.error h_error⟩
    intro s h_finish
    exact h_ready.held_of_finish h_sink h_finish
  · -- The requests behind the one that failed leave the error and the sink alone.
    obtain ⟨count, h_stop⟩ : ∃ count, w = (start.performAll (front ++ [call])).deeper count := by
      have h_back := performAll_of_error h_failed.error back
      rw [← performAll_append, List.append_assoc, List.singleton_append] at h_back
      exact ⟨_, h_back⟩
    have h_error : w.error = (start.performAll (front ++ [call])).error := by rw [h_stop]; rfl
    have h_sunk : w.sink = (start.performAll (front ++ [call])).sink := by rw [h_stop]; rfl
    refine ⟨fun h_none => absurd (h_error ▸ h_none) h_failed.error, ?_, fun _ =>
      ⟨front, call, back, rfl, h_front, h_error.symm, h_sunk, h_sunk ▸ h_failed.taken⟩⟩
    intro s h_finish
    obtain ⟨e, h_some⟩ := Option.ne_none_iff_exists'.mp h_failed.error
    rw [finish_of_error (h_error.trans h_some)] at h_finish
    cases h_finish

/-- A sink that takes two bytes at a time, puts off every other write and has room for three
bytes, after some writes. -/
def tightSink (held : Array UInt8) (writes : Nat) : ScriptedSink where
  behaviour := { limit := some 3, maxWrite := 2, interruptEvery := 2, cutsShort := true }
  held := held
  writes := writes

/-- Four bytes are too many: two are taken, then one, then none, and between them a write is
put off. -/
theorem writeAll_tightSink : Sink.writeAll (tightSink #[] 0) [0x61, 0x20, 0x7b, 0x0a] =
    (some "failed to write whole buffer", tightSink #[0x61, 0x20, 0x7b] 5) :=
  calc Sink.writeAll (tightSink #[] 0) [0x61, 0x20, 0x7b, 0x0a]
    _ = Sink.writeAll (tightSink #[0x61, 0x20] 1) [0x7b, 0x0a] :=
      Sink.writeAll_of_taken (n := 1) rfl
    _ = Sink.writeAll (tightSink #[0x61, 0x20] 2) [0x7b, 0x0a] :=
      Sink.writeAll_of_interrupted rfl
    _ = Sink.writeAll (tightSink #[0x61, 0x20, 0x7b] 3) [0x0a] :=
      Sink.writeAll_of_taken (n := 0) rfl
    _ = Sink.writeAll (tightSink #[0x61, 0x20, 0x7b] 4) [0x0a] :=
      Sink.writeAll_of_interrupted rfl
    _ = (some "failed to write whole buffer", tightSink #[0x61, 0x20, 0x7b] 5) :=
      Sink.writeAll_of_full rfl

/-- A writer into that sink. -/
def tightWriter : Writer ScriptedSink := ofSink (tightSink #[] 0) { bufferSize := 8 }

/-- Requests of which the second hands the buffer over, and fails. -/
def tightCalls : List Call := [.put (.opened [0x61]), .flush, .put .closed]

theorem performAll_tracks_plain_full_sink :
    let held (s : ScriptedSink) : Bytes := s.held.toList
    let text (calls : List Call) := plain .tab 0 (calls.flatMap Call.events)
    (Sink.Keeps held ∧ held (tightSink #[] 0) = []) ∧
      (tightWriter.performAll tightCalls).error =
        some (.transfer 2 "failed to write whole buffer") ∧
      (∃ front call back, tightCalls = front ++ call :: back ∧
        (tightWriter.performAll front).error = none ∧
        held (tightWriter.performAll tightCalls).sink <+: text (front ++ [call])) ∧
      held (tightWriter.performAll (tightCalls.take 1)).sink ++
          (tightWriter.performAll (tightCalls.take 1)).buffer.toList =
        text (tightCalls.take 1) := by
  intro held text
  have h_opened : tightWriter.perform (.put (.opened [0x61])) =
      { tightWriter with buffer := #[0x61, 0x20, 0x7b, 0x0a], level := 1, line := 2 } := rfl
  have h_flush : ((tightWriter.perform (.put (.opened [0x61]))).perform .flush).error =
      some (.transfer 2 "failed to write whole buffer") := by
    rw [h_opened]
    simp [perform, flush, drain, tightWriter, ofSink, writeAll_tightSink, recordTransfer, record]
  have h_stop : (tightWriter.performAll tightCalls).error =
      some (.transfer 2 "failed to write whole buffer") := by
    have h_closed := perform_of_error (by rw [h_flush]; exact Option.some_ne_none _) (.put .closed)
    rw [tightCalls, performAll, List.foldl_cons, List.foldl_cons, List.foldl_cons, List.foldl_nil,
      h_closed, deeper, h_flush]
  have h_start : held (tightSink #[] 0) = [] := rfl
  obtain ⟨-, -, h_failed⟩ :=
    performAll_tracks_plain ScriptedSink.keeps h_start { bufferSize := 8 } tightCalls
  obtain ⟨h_text, -⟩ :=
    performAll_tracks_plain ScriptedSink.keeps h_start { bufferSize := 8 } (tightCalls.take 1)
  obtain ⟨front, call, back, h_split, h_front, -, -, h_prefix⟩ :=
    h_failed (Option.ne_none_iff_exists'.mpr ⟨_, h_stop⟩)
  exact ⟨⟨ScriptedSink.keeps, h_start⟩, h_stop, ⟨front, call, back, h_split, h_front, h_prefix⟩,
    (h_text rfl).1⟩

end Writer
end PropertyText
