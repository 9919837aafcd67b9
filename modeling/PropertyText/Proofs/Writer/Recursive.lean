/-
  PropertyText.Proofs.Writer.Recursive

  A tree is written by recursion on the tree.  The objects still to be written are kept on
  a stack, yet the requests that a writer is given are those of the recursion
  (`Writer.putFields_eq_putRecursively`), and what it adds, at whatever level it stands, is
  a text defined by the same recursion (`Fields.layout`).  Main statement:
  `Writer.putFields_layout`.
-/
import PropertyText.Proofs.Writer.Rendering

namespace PropertyText

/-! ## The text of a tree -/

mutual

/-- The text of a property at a nesting level: one line for a text, and for an object a line
that opens it, what it holds one level deeper and a line that closes it. -/
def Value.layout (indent : Indent) (level : Nat) (name : String) : Value → Bytes
  | .text value =>
    indent.text level ++ written (Utf8.encode name) ++ [Ascii.colon, Ascii.space] ++
      written (Utf8.encode value) ++ [Ascii.newline]
  | .object inner =>
    indent.text level ++ written (Utf8.encode name) ++
        [Ascii.space, Ascii.openBrace, Ascii.newline] ++
      Fields.layout indent (level + 1) inner ++
      indent.text level ++ [Ascii.closeBrace, Ascii.newline]

/-- The text of the properties of an object at a nesting level. -/
def Fields.layout (indent : Indent) (level : Nat) : List (String × Value) → Bytes
  | [] => []
  | (name, value) :: rest => value.layout indent level name ++ Fields.layout indent level rest

end

namespace Fields

theorem rendered_toEvents (indent : Indent) (level : Nat) (f : Fields) :
    rendered indent level (f.toEvents.map Event.encoded) = layout indent level f := by
  rw [toEvents_eq]
  fun_induction events f generalizing level with
  | case1 => rw [List.map_nil, rendered, layout]
  | case2 name value rest ih =>
    rw [List.map_cons, rendered, layout, Value.layout]
    exact congrArg _ (ih level)
  | case3 name inner rest ih_inner ih_rest =>
    -- Behind what the object holds the writer stands one level deeper, as before it.
    have h_inner : ((events inner).map Event.encoded).foldl Event.levelAfter (level + 1) =
        level + 1 :=
      Event.foldl_levelAfter (toEvents_eq inner ▸ depthAfter_toEvents inner (level + 1))
    have h_opened : (Event.opened name).encoded.levelAfter level = level + 1 := rfl
    have h_closed : Event.closed.encoded.levelAfter (level + 1) = level := rfl
    rw [List.cons_append, List.map_cons, List.map_append, List.map_cons, rendered, rendered_append,
      rendered, h_opened, h_inner, h_closed, ih_inner, ih_rest, layout, Value.layout]
    simp [Event.encoded, Event.map, Event.line]

/-- A document is the text of its properties at the outermost level. -/
theorem document_eq_layout (f : Fields) (options : WriterOptions) :
    f.document options = layout options.indent 0 f := by
  rw [document_eq, Tree.events_ofFields, rendered_toEvents]

end Fields

/-! ## The requests of the recursion -/

namespace Writer

variable {σ : Type} [Sink σ]

mutual

/-- Writes a property, an object by writing what it holds between its beginning and its end. -/
def putProperty (w : Writer σ) (name : String) : Value → Writer σ
  | .text value => w.field (Utf8.encode name) (Utf8.encode value)
  | .object inner => ((w.beginObject (Utf8.encode name)).putRecursively inner).endObject

/-- Writes the properties of an object one after the other. -/
def putRecursively (w : Writer σ) : List (String × Value) → Writer σ
  | [] => w
  | (name, value) :: rest => (w.putProperty name value).putRecursively rest

end

/-- The requests made for a tree are those of the recursion on it, whatever the writer. -/
theorem putFields_eq_putRecursively (w : Writer σ) (f : Fields) :
    w.putFields f = w.putRecursively f := by
  rw [putFields, Fields.toEvents_eq, putAll]
  fun_induction Fields.events f generalizing w with
  | case1 => rw [List.map_nil, List.foldl_nil, putRecursively]
  | case2 name value rest ih =>
    rw [List.map_cons, List.foldl_cons, ih, putRecursively, putProperty]
    rfl
  | case3 name inner rest ih_inner ih_rest =>
    rw [List.cons_append, List.map_cons, List.map_append, List.map_cons, List.foldl_cons,
      List.foldl_append, List.foldl_cons, ih_inner, ih_rest, putRecursively, putProperty]
    rfl

/-! ## What is added -/

variable {held : σ → Bytes} {accepts : σ → Prop}

/-- A tree is written as the recursion on it says, into a sink that takes everything and by
a writer without an error at any level.  The requests are those of the recursion.  Every end
has a beginning among them: behind any of the requests the writer stands as many levels
deeper as objects have been begun and not ended, and no error is recorded.  In the end it
stands where it stood, it has added the text of the tree at its level, a line for each
request, and flushing hands that text over. -/
theorem putFields_layout (h_sink : Sink.Accepting held accepts) (w : Writer σ)
    (h_accepts : accepts w.sink) (h_error : w.error = none) (f : Fields) :
    let requests := f.toEvents.map Event.encoded
    let text := held w.sink ++ w.buffer.toList ++ Fields.layout w.indent w.level f
    (w.putFields f = w.putRecursively f ∧ w.putFields f = w.putAll requests) ∧
      Event.depthAfter 0 requests = some 0 ∧
      (∀ front, front <+: requests → ∃ opened, Event.depthAfter 0 front = some opened ∧
        (w.putAll front).level = w.level + opened ∧ (w.putAll front).error = none) ∧
      ((w.putFields f).error = none ∧ (w.putFields f).level = w.level ∧
        (w.putFields f).line = w.line + requests.length ∧
        held (w.putFields f).sink ++ (w.putFields f).buffer.toList = text) ∧
      (w.putFields f).flush.error = none ∧ held (w.putFields f).flush.sink = text := by
  intro requests text
  have h_start : Extends held accepts w w w.level [] := .refl h_accepts h_error
  have h_run := h_start.putAll h_sink (f.depthAfter_toEvents w.level)
  rw [List.nil_append] at h_run
  have h_line := h_run.line_eq
  rw [newlines_rendered] at h_line
  rw [Fields.rendered_toEvents] at h_run
  obtain ⟨h_flush, h_handed⟩ := h_run.flush h_sink
  have h_depth : Event.depthAfter 0 requests = some 0 := f.depthAfter_toEvents 0
  refine ⟨⟨w.putFields_eq_putRecursively f, rfl⟩, h_depth, ?_,
    ⟨h_run.error, h_run.level_eq, h_line, h_run.text_eq⟩, h_flush.error, h_handed⟩
  rintro front ⟨back, h_split⟩
  -- The depth is counted from the outermost level, and the writer starts at its own.
  obtain ⟨opened, h_front⟩ := Event.exists_depthAfter_of_append (h_split ▸ h_depth)
  have h_part := h_start.putAll h_sink (Event.depthAfter_add w.level h_front)
  exact ⟨opened, h_front, h_part.level_eq, h_part.error⟩

/-- A writer inside an object that has text in a small buffer, and a sink that takes two bytes
at a time and puts off every other write; an object in the tree is empty, a name needs quotes
and a value an escape. -/
theorem putFields_layout_patient_sink :
    let held (s : ScriptedSink) : Bytes := s.held.toList
    let sink : ScriptedSink := { behaviour := { maxWrite := 2, interruptEvery := 2 } }
    let w : Writer ScriptedSink :=
      { sink, indent := .spaces 2, capacity := 3, buffer := #[0x0a], level := 1, line := 3 }
    let f : Fields := [("a b", .object [("c", .object []), ("d", .text "\n")]), ("e", .text "1")]
    (Sink.Accepting held ScriptedSink.IsPatient ∧ sink.IsPatient ∧ w.error = none) ∧
      (w.putFields f).error = none ∧ (w.putFields f).level = 1 ∧ (w.putFields f).line = 9 ∧
      held (w.putFields f).flush.sink = Utf8.encode
        "\n  \"a b\" \x7b\n    c \x7b\n    \x7d\n    d: \"\\n\"\n  \x7d\n  e: 1\n" := by
  intro held sink w f
  have h_accepts : sink.IsPatient := ⟨rfl, by decide, rfl⟩
  obtain ⟨-, -, -, ⟨h_error, h_level, h_line, -⟩, -, h_held⟩ :=
    putFields_layout ScriptedSink.accepting w h_accepts rfl f
  refine ⟨⟨ScriptedSink.accepting, h_accepts, rfl⟩, h_error, h_level, h_line.trans ?_,
    h_held.trans ?_⟩
  · rw [List.length_map, Fields.toEvents_eq]
    simp [f, w, Fields.events]
  · decide +kernel

end Writer
end PropertyText
