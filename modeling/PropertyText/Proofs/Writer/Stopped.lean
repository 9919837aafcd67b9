/-
  PropertyText.Proofs.Writer.Stopped

  A writer behind its first error.  Nothing is written any more, nothing is handed to the
  sink, and the error stands.  One thing still moves: an object that is begun counts as one
  more level, although its end does not take the level back
  (`Writer.performAll_of_error`).
-/
import PropertyText.Sink.Scripted
import PropertyText.Writer.Call

namespace PropertyText

/-- Whether the event begins an object. -/
def Event.isOpening {α : Type} : Event α → Bool
  | .opened _ => true
  | .field _ _ | .closed => false

namespace Writer

variable {σ : Type} {w : Writer σ}

/-- The same writer so many levels deeper. -/
def deeper (w : Writer σ) (count : Nat) : Writer σ := { w with level := w.level + count }

theorem deeper_deeper (w : Writer σ) (a b : Nat) : (w.deeper a).deeper b = w.deeper (a + b) := by
  simp [deeper, Nat.add_assoc]

variable [Sink σ]

/-! ## One request -/

theorem drain_of_error (h : w.error ≠ none) : w.drain = w := by
  rw [drain, if_pos (by simp [Option.isSome_iff_ne_none, h])]

theorem push_of_error (h : w.error ≠ none) (text : Bytes) : w.push text = w := by
  rw [push, if_pos (Option.isSome_iff_ne_none.mpr h)]

theorem pushIndent_of_error (h : w.error ≠ none) : w.pushIndent = w := push_of_error h _

theorem flush_of_error (h : w.error ≠ none) : w.flush = w := by
  unfold flush
  rw [drain_of_error h]
  exact if_pos (Option.isSome_iff_ne_none.mpr h)

theorem finish_of_error {e : Error} (h : w.error = some e) : w.finish = .error e := by
  unfold finish
  rw [flush_of_error (by simp [h])]
  simp [h]

/-- Only a beginning leaves a trace. -/
theorem put_of_error (h : w.error ≠ none) (e : Event Bytes) :
    w.put e = w.deeper ([e].countP Event.isOpening) := by
  cases e with
  | field name value =>
    simp only [put, field, pushIndent_of_error h, push_of_error h]
    rfl
  | opened name =>
    simp only [put, beginObject, pushIndent_of_error h, push_of_error h]
    rfl
  | closed =>
    rw [put, endObject, if_pos (Option.isSome_iff_ne_none.mpr h)]
    rfl

/-! ## Many requests -/

theorem putAll_of_error (h : w.error ≠ none) (events : List (Event Bytes)) :
    w.putAll events = w.deeper (events.countP Event.isOpening) := by
  induction events generalizing w with
  | nil => rfl
  | cons e events ih =>
    have h_rest := ih (w := w.put e) (by rw [put_of_error h]; exact h)
    rw [← List.singleton_append, List.countP_append, ← deeper_deeper, ← put_of_error h]
    exact h_rest

theorem perform_of_error (h : w.error ≠ none) (call : Call) :
    w.perform call = w.deeper (call.events.countP Event.isOpening) := by
  cases call with
  | put e => exact put_of_error h e
  | putFields f => exact putAll_of_error h _
  | flush => exact flush_of_error h

/-- Behind an error requests count the objects that are begun, and do nothing else. -/
theorem performAll_of_error (h : w.error ≠ none) (calls : List Call) :
    w.performAll calls = w.deeper ((calls.flatMap Call.events).countP Event.isOpening) := by
  induction calls generalizing w with
  | nil => rfl
  | cons call calls ih =>
    have h_rest := ih (w := w.perform call) (by rw [perform_of_error h]; exact h)
    rw [List.flatMap_cons, List.countP_append, ← deeper_deeper, ← perform_of_error h]
    exact h_rest

/-- The first error stands: whatever is asked of the writer afterwards, the line, the text
that waits and the sink stay as they are, and flushing and finishing give that error.  The
level goes up by the objects that are begun, and never down. -/
theorem stopped_by_error {e : Error} (h : w.error = some e) (calls : List Call) :
    (w.performAll calls).error = some e ∧
      (w.performAll calls).line = w.line ∧
      (w.performAll calls).buffer = w.buffer ∧
      (w.performAll calls).sink = w.sink ∧
      (w.performAll calls).level =
        w.level + (calls.flatMap Call.events).countP Event.isOpening ∧
      (w.performAll calls).flush = w.performAll calls ∧
      (w.performAll calls).finish = .error e := by
  have h_run := performAll_of_error (w := w) (by simp [h]) calls
  have h_error : (w.performAll calls).error = some e := by
    rw [h_run]
    exact h
  refine ⟨h_error, ?_, ?_, ?_, ?_, flush_of_error (by simp [h_error]), finish_of_error h_error⟩
  all_goals
    rw [h_run]
    rfl

/-- A sink fails when it is flushed, and then an object is put and ended. -/
theorem stopped_by_failed_flush :
    let sink : ScriptedSink := { behaviour := { failsToFlush := true } }
    let w := (ofSink sink {}).performAll [.flush, .put (.opened [0x61])]
    let calls : List Call := [.putFields [("c", .object [("d", .text "1")])], .put .closed, .flush]
    let e : Error := .transfer 1 "flush failed"
    w.error = some e ∧ (w.performAll calls).sink = w.sink ∧ (w.performAll calls).line = w.line ∧
      (w.performAll calls).level = w.level + 1 ∧ (w.performAll calls).finish = .error e := by
  intro sink w calls e
  have h : w.error = some e := by decide +kernel
  obtain ⟨-, h_line, -, h_sink, h_level, -, h_finish⟩ := stopped_by_error h calls
  have h_count : (calls.flatMap Call.events).countP Event.isOpening = 1 := by decide +kernel
  exact ⟨h, h_sink, h_line, h_count ▸ h_level, h_finish⟩

/-- An object that is begun behind an error is counted as open. -/
theorem level_moves_after_error :
    let w := (ofSink ({} : Collected) {}).performAll [.put .closed]
    w.error = some (.violated 1 .nothingOpen) ∧ w.level = 0 ∧
      (w.performAll [.put (.opened [0x61])]).level = 1 := by
  decide +kernel

end Writer
end PropertyText
