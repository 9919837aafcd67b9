/-
  PropertyText.Proofs.Writer.Rendering

  The text of a document, event by event (`rendered`): each event is a line of its own,
  indented by the objects around it.  A writer whose sink takes everything adds this text
  and no other, whatever it has written before and whatever the size of its buffer
  (`Writer.Extends.putAll`).
-/
import PropertyText.Data.Flatten
import PropertyText.Fields.Document
import PropertyText.Proofs.Fields.Events
import PropertyText.Proofs.Sink.Kept
import PropertyText.Proofs.Text.Written

namespace PropertyText

/-! ## Lines -/

namespace Event

/-- The nesting level behind an event. -/
def levelAfter (level : Nat) : Event Bytes → Nat
  | .field _ _ => level
  | .opened _ => level + 1
  | .closed => level - 1

/-- The line of an event at a nesting level. -/
def line (indent : Indent) (level : Nat) : Event Bytes → Bytes
  | .field name value =>
    indent.text level ++ written name ++ [Ascii.colon, Ascii.space] ++ written value ++
      [Ascii.newline]
  | .opened name => indent.text level ++ written name ++ [Ascii.space, Ascii.openBrace, Ascii.newline]
  -- The end of an object stands below its beginning.
  | .closed => indent.text (level - 1) ++ [Ascii.closeBrace, Ascii.newline]

theorem depthAfter_cons {level depth : Nat} {e : Event Bytes} {events : List (Event Bytes)}
    (h : depthAfter level (e :: events) = some depth) :
    (e = .closed → level ≠ 0) ∧ depthAfter (e.levelAfter level) events = some depth := by
  cases e with
  | field name value => exact ⟨by simp, h⟩
  | opened name => exact ⟨by simp, h⟩
  | closed =>
    cases level with
    | zero => cases h
    | succ level => exact ⟨by simp, h⟩

/-- Behind events the writer stands as deep as there are objects open. -/
theorem foldl_levelAfter {level depth : Nat} {events : List (Event Bytes)}
    (h : depthAfter level events = some depth) : events.foldl levelAfter level = depth := by
  induction events generalizing level with
  | nil => exact Option.some.inj h
  | cons e events ih => exact ih (depthAfter_cons h).2

end Event

/-- The lines of events, from a nesting level on. -/
def rendered (indent : Indent) : Nat → List (Event Bytes) → Bytes
  | _, [] => []
  | level, e :: events => e.line indent level ++ rendered indent (e.levelAfter level) events

theorem rendered_append (indent : Indent) (level : Nat) (a b : List (Event Bytes)) :
    rendered indent level (a ++ b) =
      rendered indent level a ++ rendered indent (a.foldl Event.levelAfter level) b := by
  induction a generalizing level with
  | nil => rfl
  | cons e a ih => rw [List.cons_append, rendered, rendered, ih, List.append_assoc, List.foldl_cons]

theorem Indent.newlines_text (indent : Indent) (level : Nat) : newlines (indent.text level) = 0 := by
  rw [newlines, List.count_eq_zero]
  intro h_mem
  have h_byte := List.eq_of_mem_replicate h_mem
  cases indent <;> cases h_byte

theorem Event.newlines_line (indent : Indent) (level : Nat) (e : Event Bytes) :
    newlines (e.line indent level) = 1 := by
  cases e with
  | field name value =>
    simp only [line, newlines_append, Indent.newlines_text, newlines_written]
    rfl
  | opened name =>
    simp only [line, newlines_append, Indent.newlines_text, newlines_written]
    rfl
  | closed =>
    simp only [line, newlines_append, Indent.newlines_text]
    rfl

/-- Every event is one line. -/
theorem newlines_rendered (indent : Indent) (level : Nat) (events : List (Event Bytes)) :
    newlines (rendered indent level events) = events.length := by
  induction events generalizing level with
  | nil => rfl
  | cons e events ih =>
    rw [rendered, newlines_append, Event.newlines_line, ih, List.length_cons, Nat.add_comm]

/-! ### Characters -/

namespace Utf8

theorem isText_indent (indent : Indent) (level : Nat) : IsText (indent.text level) := by
  apply isText_of_forall_lt
  intro b h_mem
  rw [List.eq_of_mem_replicate h_mem]
  cases indent with
  | tab => exact (by decide : Ascii.tab < 0x80)
  | spaces width => exact (by decide : Ascii.space < 0x80)

theorem isText_line (indent : Indent) (level : Nat) (e : Event String) :
    IsText (e.encoded.line indent level) := by
  have h_written (text : String) : IsText (written (encode text)) :=
    isText_written (isText_encode text)
  cases e with
  | field name value =>
    have h_name := (isText_indent indent level).append (h_written name)
    have h_colon : IsText [Ascii.colon, Ascii.space] := isText_of_all_lt rfl
    have h_value := (h_name.append h_colon).append (h_written value)
    exact h_value.append (isText_of_all_lt rfl)
  | opened name =>
    have h_name := (isText_indent indent level).append (h_written name)
    exact h_name.append (isText_of_all_lt rfl)
  | closed => exact (isText_indent indent (level - 1)).append (isText_of_all_lt rfl)

/-- Events in characters are written in characters. -/
theorem isText_rendered (indent : Indent) (level : Nat) (events : List (Event String)) :
    IsText (rendered indent level (events.map Event.encoded)) := by
  induction events generalizing level with
  | nil => exact isText_nil
  | cons e events ih => exact (isText_line indent level e).append (ih _)

end Utf8

/-! ## Writing into a sink that takes everything -/

/-- A sink that takes everything it is given; what it has taken is told by `held`. -/
structure Sink.TakesAll {σ : Type} [Sink σ] (held : σ → Bytes) : Prop where
  writeAll (s : σ) (bytes : Bytes) :
    (Sink.writeAll s bytes).1 = none ∧ held (Sink.writeAll s bytes).2 = held s ++ bytes
  flush (s : σ) : (Sink.flush s).1 = none ∧ held (Sink.flush s).2 = held s

/-- The sinks among which `accepts` tells those that take everything they are given, now and
from then on. -/
structure Sink.Accepting {σ : Type} [Sink σ] (held : σ → Bytes) (accepts : σ → Prop) : Prop where
  writeAll {s : σ} (h : accepts s) (bytes : Bytes) :
    accepts (Sink.writeAll s bytes).2 ∧ (Sink.writeAll s bytes).1 = none ∧
      held (Sink.writeAll s bytes).2 = held s ++ bytes
  flush {s : σ} (h : accepts s) :
    accepts (Sink.flush s).2 ∧ (Sink.flush s).1 = none ∧ held (Sink.flush s).2 = held s

theorem Sink.TakesAll.accepting {σ : Type} [Sink σ] {held : σ → Bytes} (h : TakesAll held) :
    Accepting held fun _ => True where
  writeAll _ bytes := ⟨trivial, h.writeAll _ bytes⟩
  flush _ := ⟨trivial, h.flush _⟩

theorem Collected.takesAll : Sink.TakesAll (fun s : Collected => s.bytes.toList) where
  writeAll s bytes := by
    cases bytes with
    | nil =>
      rw [Sink.writeAll_nil]
      exact ⟨rfl, (List.append_nil _).symm⟩
    | cons b rest =>
      have h_write : Sink.write s (b :: rest) =
          (.taken (rest.length + 1), ⟨s.bytes ++ (b :: rest)⟩) := rfl
      rw [Sink.writeAll_of_taken h_write, List.drop_length, Sink.writeAll_nil]
      simp
  flush s := ⟨rfl, rfl⟩

/-- A sink that takes some of what it is given, or puts it off, takes everything in the end. -/
theorem Sink.Keeps.accepting {σ : Type} [Sink σ] {held : σ → Bytes} {accepts : σ → Prop}
    (h_sink : Keeps held)
    (h_write : ∀ s b rest, accepts s → accepts (Sink.write s (b :: rest)).2 ∧
      (Sink.write s (b :: rest)).1 ≠ .taken 0 ∧
      ∀ message, (Sink.write s (b :: rest)).1 ≠ .failed message)
    (h_flush : ∀ s, accepts s → accepts (Sink.flush s).2 ∧ (Sink.flush s).1 = none) :
    Accepting held accepts where
  writeAll {s} h bytes := by
    have h_end : accepts (Sink.writeAll s bytes).2 ∧ (Sink.writeAll s bytes).1 = none := by
      fun_induction Sink.writeAll s bytes with
      | case1 s => exact ⟨h, rfl⟩
      | case2 s b rest s' h_taken => exact absurd (by rw [h_taken]) (h_write s b rest h).2.1
      | case3 s b rest n s' h_taken ih =>
        have h_next := (h_write s b rest h).1
        rw [h_taken] at h_next
        exact ih h_next
      | case4 s b rest message s' h_off ih =>
        have h_next := (h_write s b rest h).1
        rw [h_off] at h_next
        exact ih h_next
      | case5 s b rest message s' h_failed =>
        exact absurd (by rw [h_failed]) ((h_write s b rest h).2.2 message)
    obtain ⟨taken, -, h_held, h_all⟩ := h_sink.writeAll s bytes
    exact ⟨h_end.1, h_end.2, h_all h_end.2 ▸ h_held⟩
  flush {s} h := ⟨(h_flush s h).1, (h_flush s h).2, h_sink.flush s⟩

/-- A sink with room for everything that is not put off every time and does not fail to
flush. -/
def ScriptedSink.IsPatient (s : ScriptedSink) : Prop :=
  s.behaviour.limit = none ∧ s.behaviour.interruptEvery ≠ 1 ∧ s.behaviour.failsToFlush = false

theorem ScriptedSink.accepting :
    Sink.Accepting (fun s : ScriptedSink => s.held.toList) ScriptedSink.IsPatient := by
  apply ScriptedSink.keeps.accepting
  · rintro s b rest ⟨h_limit, h_period, h_flush⟩
    show (s.write (b :: rest)).2.IsPatient ∧ (s.write (b :: rest)).1 ≠ .taken 0 ∧
      ∀ message, (s.write (b :: rest)).1 ≠ .failed message
    unfold ScriptedSink.write
    dsimp only
    split
    · simp [IsPatient, h_limit, h_period, h_flush]
    · by_cases h_bound : s.behaviour.maxWrite = 0 <;>
        simp [IsPatient, room?, h_limit, h_period, h_flush, h_bound]
  · rintro s ⟨h_limit, h_period, h_flush⟩
    show (s.flush).2.IsPatient ∧ (s.flush).1 = none
    exact ⟨⟨h_limit, h_period, h_flush⟩, if_neg (by simp [h_flush])⟩

namespace Writer

variable {σ : Type} {held : σ → Bytes} {accepts : σ → Prop} {indent : Indent} {start w : Writer σ}
  {level : Nat} {text : Bytes}

/-- The writer has written a text without an error and stands at a nesting level. -/
structure Holds (held : σ → Bytes) (indent : Indent) (w : Writer σ) (level : Nat)
    (text : Bytes) : Prop where
  error : w.error = none
  indent_eq : w.indent = indent
  level_eq : w.level = level
  text_eq : held w.sink ++ w.buffer.toList = text
  line_eq : w.line = 1 + newlines text

/-- The writer has come from another one by adding a text without an error, and stands at a
nesting level. -/
structure Extends (held : σ → Bytes) (accepts : σ → Prop) (start w : Writer σ) (level : Nat)
    (text : Bytes) : Prop where
  accepts : accepts w.sink
  error : w.error = none
  indent_eq : w.indent = start.indent
  level_eq : w.level = level
  text_eq : held w.sink ++ w.buffer.toList = held start.sink ++ start.buffer.toList ++ text
  line_eq : w.line = start.line + newlines text

theorem Extends.refl (h_accepts : accepts w.sink) (h_error : w.error = none) :
    w.Extends held accepts w w.level [] :=
  ⟨h_accepts, h_error, rfl, rfl, (List.append_nil _).symm, rfl⟩

/-- Text in the buffer counts as written. -/
theorem Extends.buffered (h : Extends held accepts start w level text) (more : Bytes) :
    Extends held accepts start { w with line := w.line + newlines more, buffer := w.buffer ++ more }
      level (text ++ more) := by
  refine ⟨h.accepts, h.error, h.indent_eq, h.level_eq, ?_, ?_⟩
  · rw [← List.append_assoc, ← h.text_eq]
    simp
  · rw [newlines_append, ← Nat.add_assoc, ← h.line_eq]

theorem Extends.atLevel (h : Extends held accepts start w level text) (other : Nat) :
    Extends held accepts start { w with level := other } other text :=
  ⟨h.accepts, h.error, h.indent_eq, rfl, h.text_eq, h.line_eq⟩

namespace Holds

/-- What is added stands behind what has been written. -/
theorem of_extends (h : start.Holds held indent level text) {level' : Nat} {more : Bytes}
    (h_more : Extends held accepts start w level' more) :
    w.Holds held indent level' (text ++ more) := by
  refine ⟨h_more.error, h_more.indent_eq.trans h.indent_eq, h_more.level_eq, ?_, ?_⟩
  · rw [h_more.text_eq, h.text_eq]
  · rw [h_more.line_eq, h.line_eq, newlines_append, Nat.add_assoc]

/-- Nothing has been added yet. -/
theorem extends_self (h : w.Holds held indent level text) :
    Extends held (fun _ => True) w w level [] :=
  h.level_eq ▸ .refl trivial h.error

/-- Text in the buffer counts as written. -/
theorem buffered (h : w.Holds held indent level text) (more : Bytes) :
    Holds held indent { w with line := w.line + newlines more, buffer := w.buffer ++ more } level
      (text ++ more) :=
  h.of_extends (h.extends_self.buffered more)

theorem atLevel (h : w.Holds held indent level text) (other : Nat) :
    Holds held indent { w with level := other } other text :=
  ⟨h.error, h.indent_eq, rfl, h.text_eq, h.line_eq⟩

end Holds

variable [Sink σ]

theorem finish_of_flush (h : w.flush.error = none) : w.finish = .ok w.flush.sink := by
  unfold finish
  dsimp only
  rw [h]

/-! ### Piece by piece -/

/-- What a writer has come to is told by `p`, and each piece of text adds to it. -/
structure Appends (indent : Indent) (p : Writer σ → Nat → Bytes → Prop) : Prop where
  push {w : Writer σ} {level : Nat} {text : Bytes} (h : p w level text) (more : Bytes) :
    p (w.push more) level (text ++ more)
  pushIndent {w : Writer σ} {level : Nat} {text : Bytes} (h : p w level text) :
    p w.pushIndent level (text ++ indent.text level)
  deeper {w : Writer σ} {level : Nat} {text : Bytes} (h : p w level text) :
    p { w with level := w.level + 1 } (level + 1) text

/-- An event that ends nothing adds its line. -/
theorem Appends.put {p : Writer σ → Nat → Bytes → Prop} (h_p : Appends indent p)
    (h : p w level text) {e : Event Bytes} (h_e : e ≠ .closed) :
    p (w.put e) (e.levelAfter level) (text ++ e.line indent level) := by
  cases e with
  | field name value =>
    have h_name := h_p.push (h_p.pushIndent h) (written name)
    have h_value := h_p.push (h_p.push h_name [Ascii.colon, Ascii.space]) (written value)
    have h_line := h_p.push h_value [Ascii.newline]
    simp only [List.append_assoc] at h_line
    simp only [Event.line, List.append_assoc]
    exact h_line
  | opened name =>
    have h_name := h_p.push (h_p.pushIndent h) (written name)
    have h_line := h_p.deeper (h_p.push h_name [Ascii.space, Ascii.openBrace, Ascii.newline])
    simp only [List.append_assoc] at h_line
    simp only [Event.line, List.append_assoc]
    exact h_line
  | closed => exact absurd rfl h_e

/-- The end of an object adds its line; the level goes down before the line is indented. -/
theorem Appends.endObject {p : Writer σ → Nat → Bytes → Prop} (h_p : Appends indent p)
    (h_error : w.error = none) (h_level : w.level = level + 1)
    (h : p { w with level } level text) :
    p w.endObject level (text ++ Event.line indent (level + 1) .closed) := by
  have h_line := h_p.push (h_p.pushIndent h) [Ascii.closeBrace, Ascii.newline]
  rw [List.append_assoc] at h_line
  rw [Writer.endObject, if_neg (by simp [h_error]), h_level]
  exact h_line

namespace Extends

theorem drain (h_sink : Sink.Accepting held accepts)
    (h : Extends held accepts start w level text) :
    Extends held accepts start w.drain level text ∧ w.drain.buffer = #[] := by
  rw [Writer.drain]
  by_cases h_empty : w.buffer = #[]
  · rw [if_pos (by simp [h_empty])]
    exact ⟨h, h_empty⟩
  · rw [if_neg (by simp [h.error, h_empty])]
    obtain ⟨h_accepts, h_none, h_held⟩ := h_sink.writeAll h.accepts w.buffer.toList
    dsimp only
    rw [h_none, recordTransfer]
    refine ⟨⟨h_accepts, h.error, h.indent_eq, h.level_eq, ?_, h.line_eq⟩, rfl⟩
    rw [← h.text_eq, h_held]
    exact List.append_nil _

theorem push (h_sink : Sink.Accepting held accepts)
    (h : Extends held accepts start w level text) (more : Bytes) :
    Extends held accepts start (w.push more) level (text ++ more) := by
  rw [Writer.push]
  rw [if_neg (by simp [h.error])]
  -- Whether the buffer is handed over then or later makes no difference to the text.
  dsimp only
  split
  · exact ((h.buffered more).drain h_sink).1
  · exact h.buffered more

theorem appends (h_sink : Sink.Accepting held accepts) (start : Writer σ) :
    Appends start.indent fun w level text => Extends held accepts start w level text where
  push h more := h.push h_sink more
  pushIndent h := by
    rw [Writer.pushIndent, h.indent_eq, h.level_eq]
    exact h.push h_sink _
  deeper h := by
    rw [h.level_eq]
    exact h.atLevel _

theorem flush (h_sink : Sink.Accepting held accepts)
    (h : Extends held accepts start w level text) :
    Extends held accepts start w.flush level text ∧
      held w.flush.sink = held start.sink ++ start.buffer.toList ++ text := by
  obtain ⟨h_drain, h_buffer⟩ := h.drain h_sink
  obtain ⟨h_accepts, h_none, h_held⟩ := h_sink.flush h_drain.accepts
  have h_sunk : held w.drain.sink = held start.sink ++ start.buffer.toList ++ text := by
    rw [← h_drain.text_eq, h_buffer]
    exact (List.append_nil _).symm
  unfold Writer.flush
  dsimp only
  rw [if_neg (by simp [h_drain.error]), h_none, recordTransfer]
  refine ⟨⟨h_accepts, h_drain.error, h_drain.indent_eq, h_drain.level_eq, ?_, h_drain.line_eq⟩, ?_⟩
  · rw [← h_drain.text_eq, h_held]
  · rw [h_held, h_sunk]

/-- An event adds its line. -/
theorem put (h_sink : Sink.Accepting held accepts)
    (h : Extends held accepts start w level text) (e : Event Bytes)
    (h_level : e = .closed → level ≠ 0) :
    Extends held accepts start (w.put e) (e.levelAfter level)
      (text ++ e.line start.indent level) := by
  by_cases h_e : e = .closed
  · subst h_e
    obtain ⟨outer, rfl⟩ := Nat.exists_eq_add_one_of_ne_zero (h_level rfl)
    exact (appends h_sink start).endObject h.error h.level_eq (h.atLevel outer)
  · exact (appends h_sink start).put h h_e

/-- Events add their lines. -/
theorem putAll (h_sink : Sink.Accepting held accepts)
    (h : Extends held accepts start w level text) {events : List (Event Bytes)} {depth : Nat}
    (h_depth : Event.depthAfter level events = some depth) :
    Extends held accepts start (w.putAll events) depth
      (text ++ rendered start.indent level events) := by
  induction events generalizing w level text with
  | nil =>
    obtain rfl := Option.some.inj h_depth
    rw [rendered, List.append_nil]
    exact h
  | cons e events ih =>
    obtain ⟨h_level, h_rest⟩ := Event.depthAfter_cons h_depth
    rw [rendered, ← List.append_assoc]
    exact ih (h.put h_sink e h_level) h_rest

end Extends

namespace Holds

theorem flush (h_sink : Sink.TakesAll held) (h : w.Holds held indent level text) :
    w.flush.Holds held indent level text ∧ held w.flush.sink = text := by
  obtain ⟨h_flush, h_held⟩ := h.extends_self.flush h_sink.accepting
  have h_holds := h.of_extends h_flush
  rw [h.text_eq] at h_held
  rw [List.append_nil] at h_holds h_held
  exact ⟨h_holds, h_held⟩

/-- Events add their lines. -/
theorem putAll (h_sink : Sink.TakesAll held) (h : w.Holds held indent level text)
    {events : List (Event Bytes)} {depth : Nat}
    (h_depth : Event.depthAfter level events = some depth) :
    (w.putAll events).Holds held indent depth (text ++ rendered indent level events) := by
  have h_events := h.extends_self.putAll h_sink.accepting h_depth
  rw [h.indent_eq] at h_events
  exact h.of_extends h_events

end Holds

theorem holds_ofSink {σ : Type} {held : σ → Bytes} {sink : σ} (h : held sink = [])
    (options : WriterOptions) : (ofSink sink options).Holds held options.indent 0 [] :=
  ⟨rfl, rfl, rfl, by rw [ofSink, h]; rfl, rfl⟩

end Writer

/-! ## Documents -/

namespace Fields

/-- The properties of a tree add its lines, whatever the size of the buffer. -/
theorem holds_putFields (f : Fields) (options : WriterOptions) :
    ((Writer.ofSink {} options).putFields f).Holds (fun s : Collected => s.bytes.toList)
      options.indent 0 (rendered options.indent 0 (Tree.ofFields f).events) := by
  have h_start : Writer.Holds (fun s : Collected => s.bytes.toList) options.indent
      (Writer.ofSink {} options) 0 [] := Writer.holds_ofSink rfl options
  have h_events := h_start.putAll Collected.takesAll ((Tree.ofFields f).depthAfter_events 0)
  rw [Tree.events_ofFields] at h_events ⊢
  exact h_events

/-- A document is written line by line. -/
theorem document_eq (f : Fields) (options : WriterOptions) :
    f.document options = rendered options.indent 0 (Tree.ofFields f).events :=
  ((holds_putFields f options).flush Collected.takesAll).2

theorem isText_document (f : Fields) (options : WriterOptions) :
    Utf8.IsText (f.document options) := by
  rw [document_eq, Tree.events_ofFields]
  exact Utf8.isText_rendered _ 0 f.toEvents

/-- The bytes of a dump are the document that was written. -/
theorem encode_dump (f : Fields) : Utf8.encode f.dump = f.document {} :=
  (isText_document f {}).encode_decode

end Fields

/-- What is a document is written as the document. -/
theorem Data.document_of_toFields {d : Data} {f : Fields} (h : d.toFields = .ok f)
    (options : WriterOptions) : d.document options = .ok (f.document options) := by
  have h_error := ((Fields.holds_putFields f options).flush Collected.takesAll).1.error
  simp only [document, writeTo, h, h_error, Fields.document]

end PropertyText
