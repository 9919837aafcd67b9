/-
  PropertyText.Proofs.Data.Output

  The ways out of a program for a value: as a document, as a text, and into a sink.  They
  refuse the same values, with the same error and before the sink is touched.  A value that
  is a document always has its text, and a sink gets this text, or a front part of it and a
  failure of its own (`Data.writeTo_agrees`).
-/
import PropertyText.Proofs.Except
import PropertyText.Proofs.Writer.Buffering

namespace PropertyText

/-- Where no end is without a beginning, the plain text of events is that of their lines. -/
theorem plain_eq_rendered (indent : Indent) {level depth : Nat} {events : List (Event Bytes)}
    (h : Event.depthAfter level events = some depth) :
    plain indent level events = rendered indent level events := by
  induction events generalizing level with
  | nil => rfl
  | cons e events ih =>
    obtain ⟨h_level, h_rest⟩ := Event.depthAfter_cons h
    have h_text : e.text indent level = e.line indent level := by
      by_cases h_e : e = .closed
      · obtain ⟨outer, rfl⟩ := Nat.exists_eq_add_one_of_ne_zero (h_level h_e)
        rfl
      · exact Event.text_of_ne h_e indent level
    rw [plain, rendered, h_text, ih h_rest]

namespace Writer

variable {σ : Type} {held : σ → Bytes} {w : Writer σ} {level : Nat}

/-! ## The errors of a writer -/

/-- Nothing but the sink has failed, and without a failure the writer is at a level. -/
structure Sound (w : Writer σ) (level : Nat) : Prop where
  level_eq : w.error = none → w.level = level
  transfer (e : Error) : w.error = some e → ∃ line message, e = .transfer line message

theorem Sound.recordTransfer (h : w.Sound level) (failure : Option String) :
    (w.recordTransfer failure).Sound level := by
  cases failure with
  | none => exact h
  | some message =>
    refine ⟨fun h_none => ?_, fun e h_some => ?_⟩
    · simp [Writer.recordTransfer, record] at h_none
    · cases h_error : w.error with
      | none =>
        simp only [Writer.recordTransfer, record, h_error, Option.none_or] at h_some
        exact ⟨w.line, message, (Option.some.inj h_some).symm⟩
      | some first =>
        simp only [Writer.recordTransfer, record, h_error, Option.some_or] at h_some
        exact h.transfer e (h_error.trans h_some)

variable [Sink σ]

namespace Sound

theorem drain (h : w.Sound level) : w.drain.Sound level := by
  rw [Writer.drain]
  split
  · exact h
  · apply Sound.recordTransfer
    exact ⟨h.level_eq, h.transfer⟩

theorem push (h : w.Sound level) (text : Bytes) : (w.push text).Sound level := by
  rw [Writer.push]
  split
  · exact h
  · dsimp only
    split
    · exact Sound.drain ⟨h.level_eq, h.transfer⟩
    · exact ⟨h.level_eq, h.transfer⟩

theorem flush (h : w.Sound level) : w.flush.Sound level := by
  unfold Writer.flush
  dsimp only
  split
  · exact h.drain
  · apply Sound.recordTransfer
    exact ⟨h.drain.level_eq, h.drain.transfer⟩

/-- Each piece of text keeps it, whatever the text. -/
theorem appends (indent : Indent) :
    Appends indent fun (w : Writer σ) level _ => w.Sound level where
  push h more := h.push more
  pushIndent h := h.push _
  deeper h := ⟨fun h_none => congrArg (· + 1) (h.level_eq h_none), h.transfer⟩

/-- An event keeps it, if no end is without a beginning. -/
theorem put (h : w.Sound level) (e : Event Bytes) (h_level : e = .closed → level ≠ 0) :
    (w.put e).Sound (e.levelAfter level) := by
  by_cases h_e : e = .closed
  · subst h_e
    obtain ⟨outer, rfl⟩ := Nat.exists_eq_add_one_of_ne_zero (h_level rfl)
    -- Behind an error the level of the writer need not be the one of the events.
    cases h_error : w.error with
    | none =>
      have h_outer : Sound { w with level := outer } outer := ⟨fun _ => rfl, h.transfer⟩
      exact @Appends.endObject σ .tab w outer [] _ _ (appends .tab) h_error (h.level_eq h_error)
        h_outer
    | some first =>
      rw [put_of_error (by simp [h_error])]
      exact ⟨fun h_none => absurd (h_error.symm.trans h_none) (Option.some_ne_none _), h.transfer⟩
  · exact @Appends.put σ .tab w level [] _ _ (appends .tab) h e h_e

theorem putAll (h : w.Sound level) {events : List (Event Bytes)} {depth : Nat}
    (h_depth : Event.depthAfter level events = some depth) : (w.putAll events).Sound depth := by
  induction events generalizing w level with
  | nil =>
    obtain rfl := Option.some.inj h_depth
    exact h
  | cons e events ih =>
    obtain ⟨h_level, h_rest⟩ := Event.depthAfter_cons h_depth
    exact ih (h.put e h_level) h_rest

end Sound

/-- Where flushing ends without an error, the sink has been asked to pass everything on. -/
theorem flush_sink_of_error_none (h : w.flush.error = none) :
    Sink.flush w.drain.sink = (none, w.flush.sink) := by
  unfold Writer.flush at h ⊢
  dsimp only at h ⊢
  by_cases h_error : w.drain.error.isSome = true
  · rw [if_pos h_error] at h
    rw [h] at h_error
    cases h_error
  · rw [if_neg h_error] at h ⊢
    cases h_failure : (Sink.flush w.drain.sink).1 with
    | none =>
      rw [recordTransfer]
      exact Prod.ext h_failure rfl
    | some message =>
      rw [h_failure] at h
      simp [recordTransfer, record] at h

end Writer

/-! ## Documents -/

namespace Fields

variable {σ : Type} [Sink σ] {held : σ → Bytes}

/-- What becomes of a document that is written into a sink: all of it is there and has been
passed on, or a front part of it is there and the sink has failed. -/
theorem flush_putFields (h_sink : Sink.Keeps held) {sink : σ} (h_start : held sink = [])
    (f : Fields) (options : WriterOptions) :
    let w := ((Writer.ofSink sink options).putFields f).flush
    (w.error = none ∧ held w.sink = f.document options ∧
        ∃ s, held s = f.document options ∧ Sink.flush s = (none, w.sink)) ∨
      ∃ line message, w.error = some (.transfer line message) ∧
        held w.sink <+: f.document options := by
  intro w
  -- The events are those of a tree, so every end has a beginning.
  have h_depth := f.depthAfter_toEvents 0
  have h_document : f.document options =
      [] ++ plain options.indent 0 (f.toEvents.map Event.encoded) := by
    rw [document_eq, Tree.events_ofFields, plain_eq_rendered options.indent h_depth,
      List.nil_append]
  have h_sound : w.Sound 0 := by
    have h_empty : (Writer.ofSink sink options).Sound 0 := ⟨fun _ => rfl, by simp [Writer.ofSink]⟩
    exact (h_empty.putAll h_depth).flush
  have h_tracks := Writer.Tracks.putAll h_sink
    (Or.inl (Writer.ready_ofSink h_start options)) (f.toEvents.map Event.encoded)
  rw [← h_document] at h_tracks
  have h_flush : w.error = none ∧ held w.sink = f.document options ∨
      w.Failed held (f.document options) := by
    rcases h_tracks with h_ready | h_failed
    · exact (h_ready.flush_cases h_sink).imp_left fun h => ⟨h.1.error, h.2⟩
    · -- Flushing does nothing behind an error.
      have h_same : w = (Writer.ofSink sink options).putFields f :=
        Writer.flush_of_error h_failed.error
      rw [h_same]
      exact Or.inr h_failed
  rcases h_flush with ⟨h_error, h_held⟩ | h_failed
  · have h_passed := Writer.flush_sink_of_error_none h_error
    have h_before := h_sink.flush ((Writer.ofSink sink options).putFields f).drain.sink
    rw [h_passed, h_held] at h_before
    exact Or.inl ⟨h_error, h_held, _, h_before.symm, h_passed⟩
  · obtain ⟨e, h_error⟩ := Option.ne_none_iff_exists'.mp h_failed.error
    obtain ⟨line, message, rfl⟩ := h_sound.transfer e h_error
    exact Or.inr ⟨line, message, h_error, h_failed.taken⟩

end Fields

namespace Data

/-- A value that is no document has no text either. -/
theorem toText_of_error {d : Data} {e : ConversionError} (h : d.toFields = .error e)
    (options : WriterOptions) : d.toText options = .error (.conversion e) := by
  have h_document : d.document options = .error (.conversion e) := by
    simp only [document, writeTo, h]
  rw [toText, h_document]
  rfl

/-- The text of a value that is a document: the document is always text. -/
theorem toText_of_toFields {d : Data} {f : Fields} (h : d.toFields = .ok f)
    (options : WriterOptions) :
    ∃ text, d.toText options = .ok text ∧ Utf8.encode text = f.document options := by
  obtain ⟨text, h_text⟩ := f.isText_document options
  refine ⟨text, ?_, h_text⟩
  rw [toText, document_of_toFields h, ← h_text, ok_bind, Utf8.read_encode]
  rfl

variable {σ : Type} [Sink σ] {held : σ → Bytes}

/-- The ways out agree.  A value that is no document is refused as a text and by a sink with
the error that it is refused with as a document, and the sink is as it was, so it has been
given nothing and asked nothing.  A value that is a document has the text of the document, and
writing it leaves that text in the sink, passed on, or a front part of it with a failure of
the sink. -/
theorem writeTo_agrees (h_sink : Sink.Keeps held) {sink : σ} (h_start : held sink = [])
    (d : Data) (options : WriterOptions) :
    (∀ e, d.toFields = .error e →
      d.toText options = .error (.conversion e) ∧
        d.writeTo sink options = (Option.some (.conversion e), sink)) ∧
    ∀ f, d.toFields = .ok f →
      d.toText {} = .ok f.dump ∧
        ∃ text, d.toText options = .ok text ∧ Utf8.encode text = f.document options ∧
          ∃ failure after, d.writeTo sink options = (failure, after) ∧
            (failure = Option.none ∧ held after = Utf8.encode text ∧
                (∃ before, held before = Utf8.encode text ∧
                  Sink.flush before = (Option.none, after)) ∨
              ∃ line message, failure = Option.some (.transfer line message) ∧
                held after <+: Utf8.encode text) := by
  constructor
  · intro e h_error
    refine ⟨toText_of_error h_error options, ?_⟩
    rw [writeTo, h_error]
  · intro f h_fields
    obtain ⟨text, h_text, h_bytes⟩ := toText_of_toFields h_fields options
    obtain ⟨dumped, h_dumped, h_dump⟩ := toText_of_toFields h_fields {}
    have h_same : dumped = f.dump := by
      rw [Fields.dump, ← h_dump, Utf8.decode_encode]
    have h_write : d.writeTo sink options =
        (((Writer.ofSink sink options).putFields f).flush.error,
          ((Writer.ofSink sink options).putFields f).flush.sink) := by
      rw [writeTo, h_fields]
    refine ⟨h_same ▸ h_dumped, text, h_text, h_bytes, _, _, h_write, ?_⟩
    rw [h_bytes]
    exact Fields.flush_putFields h_sink h_start f options

/-- A sink that takes everything and cannot pass it on. -/
def stuckSink : ScriptedSink := { behaviour := { failsToFlush := true } }

/-- The sink takes the text of one property at once. -/
theorem writeAll_stuckSink : Sink.writeAll stuckSink [0x61, 0x3a, 0x20, 0x31, 0x0a] =
    (Option.none, { stuckSink with held := #[0x61, 0x3a, 0x20, 0x31, 0x0a], writes := 1 }) :=
  calc Sink.writeAll stuckSink [0x61, 0x3a, 0x20, 0x31, 0x0a]
    _ = Sink.writeAll
        { stuckSink with held := #[0x61, 0x3a, 0x20, 0x31, 0x0a], writes := 1 } [] :=
      Sink.writeAll_of_taken (n := 4) rfl
    _ = _ := Sink.writeAll_nil _

/-- A record that holds a sequence in a sequence is no document and leaves the sink alone; one
that holds a text is written, and the sink fails with all of it. -/
theorem writeTo_agrees_stuck_sink :
    let held (s : ScriptedSink) : Bytes := s.held.toList
    let nested : Data := .struct [("a", .seq [.seq []])]
    let flat : Data := .struct [("a", .scalar (.text "1"))]
    (Sink.Keeps held ∧ held stuckSink = []) ∧
      (nested.toText {} = .error (.conversion .nestedSequence) ∧
        nested.writeTo stuckSink {} = (Option.some (.conversion .nestedSequence), stuckSink)) ∧
      (∃ text, flat.toText {} = .ok text ∧
        held (flat.writeTo stuckSink {}).2 <+: Utf8.encode text) ∧
      (flat.writeTo stuckSink {}).1 = Option.some (.transfer 2 "flush failed") := by
  intro held nested flat
  have h_start : held stuckSink = [] := rfl
  obtain ⟨h_refused, -⟩ := writeTo_agrees ScriptedSink.keeps h_start nested {}
  obtain ⟨-, h_written⟩ := writeTo_agrees ScriptedSink.keeps h_start flat {}
  obtain ⟨-, text, h_text, -, failure, after, h_write, h_outcome⟩ :=
    h_written [("a", .text "1")] rfl
  have h_events : Fields.toEvents [("a", .text "1")] = [.field "a" "1"] := by
    rw [Fields.toEvents_eq, Fields.events, Fields.events]
  have h_put : (Writer.ofSink stuckSink {}).putFields [("a", .text "1")] =
      { Writer.ofSink stuckSink {} with
        buffer := #[0x61, 0x3a, 0x20, 0x31, 0x0a], line := 2 } := by
    rw [Writer.putFields, h_events]
    rfl
  have h_failure : (flat.writeTo stuckSink {}).1 = Option.some (.transfer 2 "flush failed") := by
    have h_fields : flat.toFields = .ok [("a", .text "1")] := rfl
    rw [writeTo, h_fields]
    dsimp only
    rw [h_put]
    simp only [Writer.flush, Writer.drain, Writer.ofSink, writeAll_stuckSink]
    rfl
  refine ⟨⟨ScriptedSink.keeps, h_start⟩, h_refused .nestedSequence rfl, ⟨text, h_text, ?_⟩,
    h_failure⟩
  rw [h_write] at h_failure ⊢
  rcases h_outcome with ⟨rfl, -⟩ | ⟨line, message, -, h_prefix⟩
  · cases h_failure
  · exact h_prefix

end Data
end PropertyText
