/-
  PropertyText.Proofs.Fields.RoundTrip

  A document that is written is read back as it was.  A writer can put every string but one
  with a zero byte in it; a document with such a string is refused at the line on which the
  first of them stands.  Main statement: `Fields.ofBytes_document`.
-/
import PropertyText.Proofs.Grammar.Load
import PropertyText.Proofs.Grammar.Reading
import PropertyText.Proofs.Grammar.Written
import PropertyText.Proofs.Writer.Rendering

namespace PropertyText

open Grammar

/-! ## Layout -/

namespace Indent

variable (indent : Indent) (level : Nat)

theorem isBlank_byte : Ascii.isBlank indent.byte = true := by
  cases indent <;> rfl

theorem separator_text (comments : Bool) : Separator comments (indent.text level) := by
  rw [text]
  induction level * indent.width with
  | zero => exact .nil
  | succ n ih => exact .blank indent.isBlank_byte ih

end Indent

/-! ## Reading a line -/

namespace Event

/-- The names and values of an event. -/
def texts {α : Type} : Event α → List α
  | .field name value => [name, value]
  | .opened name => [name]
  | .closed => []

/-- No name and no value of the event has a NUL character. -/
def NulFree (e : Event String) : Prop := ∀ text ∈ e.texts, Char.ofNat 0 ∉ text.toList

instance (e : Event String) : Decidable e.NulFree := by
  unfold NulFree
  infer_instance

@[simp] theorem nulFree_field (name value : String) :
    (field name value).NulFree ↔ Char.ofNat 0 ∉ name.toList ∧ Char.ofNat 0 ∉ value.toList := by
  simp [NulFree, texts]

@[simp] theorem nulFree_opened (name : String) :
    (opened name).NulFree ↔ Char.ofNat 0 ∉ name.toList := by
  simp [NulFree, texts]

@[simp] theorem nulFree_closed : (closed : Event String).NulFree := by
  simp [NulFree, texts]

theorem forall_texts_encoded (e : Event String) :
    (∀ s ∈ e.encoded.texts, 0 ∉ s) ↔ e.NulFree := by
  have h_nul (text : String) : 0 ∈ Utf8.encode text ↔ Char.ofNat 0 ∈ text.toList :=
    Utf8.mem_encode (by decide) text
  cases e <;> simp [NulFree, texts, encoded, map, h_nul]

end Event

namespace Grammar.Reading

variable {comments : Bool} {text : Bytes} {tokens : List Token} {outcome : Outcome}
  {indent : Indent} {level : Nat}

theorem newline (h : Reading comments text tokens outcome) :
    Reading comments (Ascii.newline :: text) tokens (outcome.behind 1) :=
  .separator (.blank rfl .nil) h

theorem space (h : Reading comments text tokens outcome) :
    Reading comments (Ascii.space :: text) tokens outcome := by
  have h_space := h.separator (.blank (b := Ascii.space) rfl .nil)
  rwa [show newlines [Ascii.space] = 0 from rfl, Outcome.behind_zero] at h_space

theorem indented (h : Reading comments text tokens outcome) :
    Reading comments (indent.text level ++ text) tokens outcome := by
  have h_indent := h.separator (indent.separator_text level comments)
  rwa [Indent.newlines_text, Outcome.behind_zero] at h_indent

/-- A mark is a token whatever follows it. -/
theorem mark {token : Token} {b : UInt8} (h_lexeme : Lexeme token [b])
    (h_b : isBareByte b = false ∧ b ≠ Ascii.newline) (h : Reading comments text tokens outcome) :
    Reading comments (b :: text) (token :: tokens) outcome := by
  have h_maximal : Maximal [b] text := fun h_bare => absurd h_bare (by simp [h_b.1])
  have h_token := h.token h_lexeme h_maximal
  rwa [show newlines [b] = 0 by simp [newlines, h_b.2], Outcome.behind_zero] at h_token

/-- A written string is read back where no bare string can go on. -/
theorem written {s : Bytes} (h_s : 0 ∉ s) (h_next : ∀ b ∈ text.head?, isBareByte b = false)
    (h : Reading comments text tokens outcome) :
    Reading comments (written s ++ text) (.text s :: tokens) outcome := by
  have h_token := h.token (lexeme_written h_s) (fun _ => h_next)
  rwa [newlines_written, Outcome.behind_zero] at h_token

theorem written_nul (comments : Bool) {s : Bytes} (h_s : 0 ∈ s) (text : Bytes) :
    Reading comments (PropertyText.written s ++ text) [] (some (0, .zeroEscape)) := by
  obtain ⟨broken, more, h_written, h_lines, h_fault⟩ := fault_written comments h_s
  have h := Reading.fault (h_fault (more ++ text))
  rwa [h_lines, ← List.append_assoc, ← h_written] at h

/-- The line of an event is read as the event. -/
theorem line {e : Event Bytes} (h_e : ∀ s ∈ e.texts, 0 ∉ s)
    (h : Reading comments text tokens outcome) :
    Reading comments (e.line indent level ++ text) (e.tokens ++ tokens) (outcome.behind 1) := by
  cases e with
  -- Each line is put together from its end, for a token depends on what follows it.
  | field name value =>
    have h_value := h.newline.written (h_e value (by simp [Event.texts])) (by simp; rfl)
    have h_colon := h_value.space.mark .colon (by decide)
    have h_name := h_colon.written (h_e name (by simp [Event.texts])) (by simp; rfl)
    simpa [Event.line, Event.tokens] using h_name.indented
  | opened name =>
    have h_brace := h.newline.mark .openBrace (by decide)
    have h_name := h_brace.space.written (h_e name (by simp [Event.texts])) (by simp; rfl)
    simpa [Event.line, Event.tokens] using h_name.indented
  | closed =>
    have h_brace := h.newline.mark .closeBrace (by decide)
    simpa [Event.line, Event.tokens] using h_brace.indented

/-- In the line of an event with a zero byte, reading stops within the event. -/
theorem line_nul (comments : Bool) {e : Event Bytes} (h_e : ¬∀ s ∈ e.texts, 0 ∉ s) (text : Bytes) :
    ∃ part more, part ++ more = e.tokens ∧
      Reading comments (e.line indent level ++ text) part (some (0, .zeroEscape)) := by
  cases e with
  | field name value =>
    by_cases h_name : 0 ∈ name
    · have h := written_nul comments h_name (Ascii.colon :: Ascii.space ::
        PropertyText.written value ++ Ascii.newline :: text)
      refine ⟨[], _, rfl, ?_⟩
      simpa [Event.line] using h.indented
    · have h_value : 0 ∈ value := by
        simpa [Event.texts, h_name] using h_e
      -- The name is read, and the fault is found in the value.
      have h := written_nul comments h_value (Ascii.newline :: text)
      have h_colon := h.space.mark .colon (by decide)
      have h_read := h_colon.written h_name (by simp; rfl)
      refine ⟨[.text name, .colon], [.text value], rfl, ?_⟩
      simpa [Event.line] using h_read.indented
  | opened name =>
    have h_name : 0 ∈ name := by
      simpa [Event.texts] using h_e
    have h := written_nul comments h_name (Ascii.space :: Ascii.openBrace ::
      Ascii.newline :: text)
    refine ⟨[], _, rfl, ?_⟩
    simpa [Event.line] using h.indented
  | closed => simp [Event.texts] at h_e

/-- The lines of events are read as the events. -/
theorem rendered {events : List (Event Bytes)} (h_events : ∀ e ∈ events, ∀ s ∈ e.texts, 0 ∉ s)
    (h : Reading comments text tokens outcome) (level : Nat) :
    Reading comments (rendered indent level events ++ text)
      (events.flatMap Event.tokens ++ tokens) (outcome.behind events.length) := by
  induction events generalizing level with
  | nil =>
    rw [List.length_nil, Outcome.behind_zero]
    exact h
  | cons e events ih =>
    have h_rest := ih (fun d h_mem => h_events d (List.mem_cons_of_mem _ h_mem))
      (e.levelAfter level)
    have h_line : Reading comments (e.line indent level ++ _) _ _ :=
      h_rest.line (h_events e List.mem_cons_self)
    rw [Outcome.behind_behind, Nat.add_comm] at h_line
    rw [PropertyText.rendered, List.append_assoc, List.flatMap_cons, List.append_assoc]
    exact h_line

end Grammar.Reading

/-! ## Documents -/

/-- A written document does not begin like a byte-order mark. -/
theorem head_rendered {indent : Indent} {events : List (Event Bytes)} {depth : Nat}
    (h : Event.depthAfter 0 events = some depth) :
    (rendered indent 0 events).head? ≠ some 0xef := by
  -- At the top nothing is indented, so the first name begins the text.
  have h_indent : indent.text 0 = [] := by simp [Indent.text]
  cases events with
  | nil => simp [rendered]
  | cons e events =>
    cases e with
    | field name value =>
      simp only [rendered, Event.line, h_indent, List.nil_append, List.append_assoc]
      exact head_written_append name _
    | opened name =>
      simp only [rendered, Event.line, h_indent, List.nil_append, List.append_assoc]
      exact head_written_append name _
    | closed => cases h

namespace Tree

variable {t : Tree} {indent : Indent} {comments : Bool}

/-- A tree without a zero byte is written as a document for it. -/
theorem document_rendered (h : ∀ e ∈ t.events, ∀ s ∈ e.texts, 0 ∉ s) :
    Document comments (rendered indent 0 t.events) t := by
  have h_end : Reading comments [] [] none := .trailer (.separator .nil)
  have h_read : Reading comments (rendered indent 0 t.events ++ []) _ _ := h_end.rendered h 0
  rw [List.append_nil, List.append_nil] at h_read
  exact h_read.document (head_rendered (t.depthAfter_events 0)) (body_events t)

/-- A tree with a zero byte is refused at the line of the first event with one. -/
theorem firstFault_rendered {before after : List (Event Bytes)} {e : Event Bytes}
    (h_events : t.events = before ++ e :: after)
    (h_before : ∀ d ∈ before, ∀ s ∈ d.texts, 0 ∉ s) (h_e : ¬∀ s ∈ e.texts, 0 ∉ s) :
    FirstFault comments (rendered indent 0 t.events) (1 + before.length) .zeroEscape := by
  have h_depth := t.depthAfter_events 0
  have h_head : (rendered indent 0 t.events).head? ≠ some 0xef := head_rendered h_depth
  rw [h_events, rendered_append, rendered] at h_head ⊢
  obtain ⟨part, more, h_tokens, h_line⟩ := Reading.line_nul comments h_e _
  have h_read : Reading comments (rendered indent 0 before ++ _) _ _ :=
    h_line.rendered h_before 0
  -- The event could be read as a whole, and so could its part in front of the fault.
  rw [h_events, ← List.singleton_append, ← List.append_assoc] at h_depth
  obtain ⟨depth, h_front⟩ := Event.exists_depthAfter_of_append h_depth
  exact h_read.firstFault h_head (viable_of_event h_front h_tokens)

end Tree
namespace Fields

/-- No name and no value has a NUL character, at any depth. -/
def NulFree : Fields → Prop
  | [] => True
  | (name, .text value) :: rest =>
    Char.ofNat 0 ∉ name.toList ∧ Char.ofNat 0 ∉ value.toList ∧ NulFree rest
  | (name, .object inner) :: rest => Char.ofNat 0 ∉ name.toList ∧ NulFree inner ∧ NulFree rest

theorem nulFree_iff (f : Fields) : f.NulFree ↔ ∀ e ∈ f.toEvents, e.NulFree := by
  rw [toEvents_eq]
  fun_induction NulFree f with
  | case1 => simp [events]
  | case2 name value rest ih => simp [events, ih, and_assoc]
  | case3 name inner rest ih_inner ih_rest =>
    simp [events, ih_inner, ih_rest, or_imp, forall_and]

theorem exists_first_nul {f : Fields} (h : ¬f.NulFree) :
    ∃ before e after, f.toEvents = before ++ e :: after ∧ (∀ d ∈ before, d.NulFree) ∧
      ¬e.NulFree := by
  rw [nulFree_iff] at h
  cases h_first : f.toEvents.find? (fun e => !decide e.NulFree) with
  | none =>
    refine absurd (fun e h_mem => ?_) h
    simpa using List.find?_eq_none.mp h_first e h_mem
  | some e =>
    obtain ⟨h_e, before, after, h_split, h_before⟩ := List.find?_eq_some_iff_append.mp h_first
    exact ⟨before, e, after, h_split, by simpa using h_before, by simpa using h_e⟩

/-- The line on which a writer stands behind events is one more than their number. -/
theorem line_putAll {t : Tree} {before after : List (Event Bytes)} (options : WriterOptions)
    (h : t.events = before ++ after) :
    ((Writer.ofSink ({} : Collected) options).putAll before).line = before.length + 1 := by
  obtain ⟨depth, h_before⟩ := Event.exists_depthAfter_of_append (h ▸ t.depthAfter_events 0)
  have h_start : Writer.Holds (fun s : Collected => s.bytes.toList) options.indent
      (Writer.ofSink {} options) 0 [] := Writer.holds_ofSink rfl options
  rw [(h_start.putAll Collected.takesAll h_before).line_eq, List.nil_append, newlines_rendered,
    Nat.add_comm]

theorem ofBytes_document_of_nulFree {f : Fields} (h : f.NulFree) (w : WriterOptions)
    (o : ReaderOptions) : ofBytes (f.document w) o = .ok f := by
  have h_events : ∀ e ∈ (Tree.ofFields f).events, ∀ s ∈ e.texts, 0 ∉ s := by
    rw [Tree.events_ofFields, List.forall_mem_map]
    intro e h_mem
    exact (Event.forall_texts_encoded e).mpr (f.nulFree_iff.mp h e h_mem)
  have h_document : Document o.comments (rendered w.indent 0 (Tree.ofFields f).events) _ :=
    Tree.document_rendered h_events
  rw [document_eq, ofBytes_of_document h_document, Tree.decoded_ofFields]

theorem ofBytes_document_of_nul {f : Fields} {before after : List (Event String)}
    {e : Event String} (h_split : f.toEvents = before ++ e :: after)
    (h_before : ∀ d ∈ before, d.NulFree) (h_e : ¬e.NulFree) (w : WriterOptions)
    (o : ReaderOptions) :
    ofBytes (f.document w) o = .error (.malformed
      ((Writer.ofSink ({} : Collected) w).putAll (before.map Event.encoded)).line
      .zeroEscape) := by
  have h_events : (Tree.ofFields f).events =
      before.map Event.encoded ++ e.encoded :: after.map Event.encoded := by
    rw [Tree.events_ofFields, h_split, List.map_append, List.map_cons]
  -- One line has been written for each of the events before.
  rw [line_putAll w h_events, Nat.add_comm, document_eq]
  apply ofBytes_of_firstFault
  apply Tree.firstFault_rendered h_events
  · rw [List.forall_mem_map]
    intro d h_mem
    exact (Event.forall_texts_encoded d).mpr (h_before d h_mem)
  · rwa [Event.forall_texts_encoded]

/-- A document without a NUL character is read back as it was, whatever the layout and the
buffers.  With one it is refused at the line on which the first of them is written.  A dump
is the document in the default layout. -/
theorem ofBytes_document (f : Fields) (w : WriterOptions) (o : ReaderOptions) :
    (ofBytes (f.document w) o = .ok f ↔ f.NulFree) ∧
      (¬f.NulFree → ∃ before e after line, f.toEvents = before ++ e :: after ∧
        (∀ d ∈ before, d.NulFree) ∧ ¬e.NulFree ∧
        line = ((Writer.ofSink ({} : Collected) w).putAll (before.map Event.encoded)).line ∧
        ofBytes (f.document w) o = .error (.malformed line .zeroEscape) ∧
        Malformation.zeroEscape.message = "NUL byte not allowed in \\x escape sequence") ∧
      Utf8.encode f.dump = f.document {} := by
  refine ⟨⟨?_, ?_⟩, ?_, encode_dump f⟩
  · intro h
    by_contra h_nul
    obtain ⟨before, e, after, h_split, h_before, h_e⟩ := exists_first_nul h_nul
    rw [ofBytes_document_of_nul h_split h_before h_e] at h
    cases h
  · intro h
    exact ofBytes_document_of_nulFree h w o
  · intro h
    obtain ⟨before, e, after, h_split, h_before, h_e⟩ := exists_first_nul h
    exact ⟨before, e, after, _, h_split, h_before, h_e, rfl,
      ofBytes_document_of_nul h_split h_before h_e w o, rfl⟩

end Fields
end PropertyText
