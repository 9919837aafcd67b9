/-
  PropertyText.Proofs.Stream.Characters

  Characters stay whole.  Both sides of the format work on single bytes, but they cut and
  extend texts only at bytes below 0x80, so what is read from a document in characters and what
  is written of texts in characters is in characters again (`Utf8.IsText`).  Main statement:
  `Stream.characters_stay_whole`.
-/
import PropertyText.Proofs.Fields.RoundTrip
import PropertyText.Proofs.Stream.Demand
import PropertyText.Proofs.Writer.Buffering

namespace PropertyText

open Grammar
open Utf8 (IsText)

/-! ## Tokens of a text in characters -/

namespace Grammar

theorem isBareByte_low {b : UInt8} (h : isBareByte b = true) : b < 0x80 := by
  revert b
  apply forall_byte
  decide +kernel

theorem hexValue_low {digit : UInt8} {n : Nat} (h : Ascii.hexValue? digit = some n) :
    digit < 0x80 := by
  have h_all : ∀ b, (Ascii.hexValue? b).isSome = true → b < 0x80 := by
    apply forall_byte
    decide +kernel
  exact h_all digit (by rw [h]; rfl)

theorem escapeLetters_low {letter b : UInt8} (h : (letter, b) ∈ escapeLetters) :
    letter < 0x80 ∧ b < 0x80 := by
  have h_all : escapeLetters.all (fun pair => pair.1 < 0x80 && pair.2 < 0x80) = true := rfl
  simpa using List.all_eq_true.mp h_all _ h

/-- What is meant between quotes is in characters if what stands there is.  On the way, a front
part of the one stands in front of what is left of the other. -/
theorem Quoted.isText {raw text : Bytes} (h : Quoted raw text) {front : Bytes}
    (h_raw : IsText (front ++ raw)) : IsText (front ++ text) := by
  induction h generalizing front with
  | nil => exact h_raw
  | @plain b raw text _ _ _ ih =>
    rw [List.append_cons] at h_raw ⊢
    exact ih h_raw
  | @letter letter b raw text h_mem _ ih =>
    obtain ⟨h_letter, h_b⟩ := escapeLetters_low h_mem
    obtain ⟨h_front, h_rest⟩ := h_raw.parts (by decide)
    have h_byte : IsText [b] := Utf8.isText_of_all_lt (by simpa using h_b)
    rw [List.append_cons]
    exact ih ((h_front.append h_byte).append (h_rest.tail h_letter))
  | @hex high low h l raw text h_high h_low h_zero h_control _ ih =>
    obtain ⟨h_front, h_rest⟩ := h_raw.parts (by decide)
    have h_raw' := ((h_rest.tail (by decide)).tail (hexValue_low h_high)).tail (hexValue_low h_low)
    -- The byte that is meant is a control byte.
    have h_b : UInt8.ofNat (16 * h + l) < 0x80 := by
      rw [UInt8.lt_iff_toNat_lt, UInt8.toNat_ofNat', Nat.mod_eq_of_lt (by omega)]
      show 16 * h + l < 128
      omega
    have h_byte : IsText [UInt8.ofNat (16 * h + l)] := Utf8.isText_of_all_lt (by simpa using h_b)
    rw [List.append_cons]
    exact ih ((h_front.append h_byte).append h_raw')

theorem Lexeme.isText {text raw before after : Bytes} (h : Lexeme (.text text) raw)
    (h_whole : IsText (before ++ raw ++ after)) : IsText text := by
  cases h with
  | bare h_bare =>
    rw [isBare, Bool.and_eq_true] at h_bare
    apply Utf8.isText_of_forall_lt
    intro b h_mem
    exact isBareByte_low (List.all_eq_true.mp h_bare.2 b h_mem)
  | @quoted raw text h_raw =>
    -- The text is cut at both quotes.
    have h_quote : Ascii.quote < 0x80 := by decide
    rw [List.append_assoc, List.cons_append, List.cons_append, List.append_assoc] at h_whole
    have h_behind : IsText (raw ++ Ascii.quote :: after) := (h_whole.parts h_quote).2
    have h_inside : IsText ([] ++ raw) := (h_behind.parts h_quote).1
    exact h_raw.isText h_inside

/-- The texts of tokens that stand in a text in characters are in characters. -/
theorem Tokens.isText {comments : Bool} {text rest before after : Bytes} {tokens : List Token}
    (h : Tokens comments text tokens rest) (h_whole : IsText (before ++ text ++ after)) :
    ∀ bytes, .text bytes ∈ tokens → IsText bytes := by
  induction h generalizing before with
  | nil => simp
  | @cons separator raw text rest token tokens h_separator h_lexeme h_maximal h_tokens ih =>
    intro bytes h_mem
    rcases List.mem_cons.mp h_mem with rfl | h_later
    · have h_raw : IsText (before ++ separator ++ raw ++ (text ++ after)) := by
        simpa using h_whole
      exact h_lexeme.isText h_raw
    · have h_text : IsText (before ++ separator ++ raw ++ text ++ after) := by
        simpa using h_whole
      exact ih h_text bytes h_later

end Grammar

/-! ## Reading a document in characters -/

/-- What a stretch of a text in characters is. -/
def Utf8.IsWithin (bytes : Bytes) : Prop := ∃ before after, IsText (before ++ bytes ++ after)

theorem Utf8.IsWithin.suffix {bytes rest : Bytes} (h : IsWithin bytes) (h_rest : rest <:+ bytes) :
    IsWithin rest := by
  obtain ⟨before, after, h_whole⟩ := h
  obtain ⟨front, rfl⟩ := h_rest
  refine ⟨before ++ front, after, ?_⟩
  rwa [List.append_assoc before front rest]

namespace Stream

theorem texts_of_event {p : Property} {text : Bytes} (h : text ∈ p.event.texts) :
    .text text ∈ p.event.tokens := by
  obtain ⟨name, value | object⟩ := p
  · simpa [Property.event, Event.texts, Event.tokens] using h
  · simpa [Property.event, Event.texts, Event.tokens] using h

/-- Tokens are read in a stretch of a text in characters, and leave one. -/
theorem within_of_scans {comments : Bool} {mode : Token.Mode} {u u' : Unread}
    {tokens : List Token} (h : Token.Scans comments mode u tokens u') (h_mode : mode.IsBetween)
    (h_u : Utf8.IsWithin u.bytes) :
    Utf8.IsWithin u'.bytes ∧ ∀ text, .text text ∈ tokens → IsText text := by
  obtain ⟨front, text, h_bytes, h_tokens, -⟩ := h.exists_tokens h_mode
  refine ⟨h_u.suffix ⟨front ++ text, by rw [h_bytes, List.append_assoc]⟩, ?_⟩
  obtain ⟨before, after, h_whole⟩ := h_u
  have h_text : IsText (before ++ front ++ text ++ (u'.bytes ++ after)) := by
    simpa [h_bytes] using h_whole
  exact h_tokens.isText h_text

/-- What is left to be read is a stretch of a text in characters, whatever is requested. -/
theorem within_invariant : Invariant fun s : Stream Unread => Utf8.IsWithin s.input.bytes where
  read := by
    intro s h_run h
    obtain ⟨tokens, ⟨-, u, h_scans, h_end⟩, -⟩ := takes_readProperty h_run.1
    obtain ⟨h_u, -⟩ := within_of_scans h_scans s.isBetween_mode h
    rcases h_end with h_input | ⟨-, mode, -, h_input⟩
    · rwa [h_input]
    · rw [h_input]
      obtain ⟨moved, h_bytes, -⟩ := moved_of_scan (Prod.eta (Token.scan s.comments mode u)).symm
      exact h_u.suffix ⟨moved, h_bytes.symm⟩
  violate cause h := h

/-- The names and values of a property are in characters. -/
theorem isText_of_readProperty {s s' : Stream Unread} {p : Property} (h_run : s.Running)
    (h : Utf8.IsWithin s.input.bytes) (h_read : s.readProperty = (some p, s')) :
    ∀ text ∈ p.event.texts, IsText text := by
  obtain ⟨tokens, ⟨-, u, h_scans, -⟩, h_tokens⟩ := takes_readProperty h_run.1
  rw [h_read] at h_tokens
  obtain rfl := h_tokens p rfl
  intro text h_mem
  exact (within_of_scans h_scans s.isBetween_mode h).2 text (texts_of_event h_mem)

end Stream

/-! ## Trees in characters -/

/-- A tree in characters is told by its texts as characters. -/
theorem Tree.ofFields_decoded {t : Tree} (h : ∀ e ∈ t.events, ∀ text ∈ e.texts, IsText text) :
    Tree.ofFields t.decoded = t := by
  induction t with
  | empty => rw [Tree.decoded, Tree.ofFields]
  | field name value rest ih =>
    have h_first := h (.field name value) List.mem_cons_self
    have h_name := (h_first name (by simp [Event.texts])).encode_decode
    have h_value := (h_first value (by simp [Event.texts])).encode_decode
    have h_rest := ih fun e h_mem => h e (List.mem_cons_of_mem _ h_mem)
    rw [Tree.decoded, Tree.ofFields, h_name, h_value, h_rest]
  | object name inner rest ih_inner ih_rest =>
    have h_name := (h (.opened name) List.mem_cons_self name (by simp [Event.texts])).encode_decode
    have h_inner := ih_inner fun e h_mem => h e (by simp [Tree.events, h_mem])
    have h_rest := ih_rest fun e h_mem => h e (by simp [Tree.events, h_mem])
    rw [Tree.decoded, Tree.ofFields, h_name, h_inner, h_rest]

/-- What is read as a tree of characters is what a walk hands out, if that is in characters. -/
theorem Stream.toEvents_readFields {ι : Type} [Input ι] {s : Stream ι} {object : ObjectId}
    (h : ∀ e ∈ (s.walk object).1, ∀ text ∈ e.texts, IsText text) :
    (s.readFields object).1.toEvents.map Event.encoded = (s.walk object).1 := by
  obtain ⟨t, h_events⟩ := s.exists_tree_walk object
  have h_fields : (s.readFields object).1 = t.decoded := by
    rw [← t.ofEvents_events, h_events]
    rfl
  rw [← h_events] at h
  rw [h_fields, ← Tree.events_ofFields, Tree.ofFields_decoded h, h_events]

theorem Stream.toEvents_load {ι : Type} [Input ι] {s : Stream ι} {f : Fields}
    (h : ∀ e ∈ (s.walk rootId).1, ∀ text ∈ e.texts, IsText text) (h_load : s.load.1 = .ok f) :
    f.toEvents.map Event.encoded = (s.walk rootId).1 := by
  rw [← readFields_of_load h_load]
  exact toEvents_readFields h

/-! ## Writing texts in characters -/

theorem Event.isText_of_encoded (e : Event String) : ∀ text ∈ e.encoded.texts, IsText text := by
  intro text h_mem
  cases e with
  | field name value =>
    obtain rfl | rfl : text = Utf8.encode name ∨ text = Utf8.encode value := by
      simpa [Event.encoded, Event.map, Event.texts] using h_mem
    · exact Utf8.isText_encode name
    · exact Utf8.isText_encode value
  | opened name =>
    obtain rfl : text = Utf8.encode name := by
      simpa [Event.encoded, Event.map, Event.texts] using h_mem
    exact Utf8.isText_encode name
  | closed => cases h_mem

theorem Event.exists_encoded {e : Event Bytes} (h : ∀ text ∈ e.texts, IsText text) :
    ∃ e' : Event String, e'.encoded = e := by
  cases e with
  | field name value =>
    obtain ⟨n, rfl⟩ := h name (by simp [Event.texts])
    obtain ⟨v, rfl⟩ := h value (by simp [Event.texts])
    exact ⟨.field n v, rfl⟩
  | opened name =>
    obtain ⟨n, rfl⟩ := h name (by simp [Event.texts])
    exact ⟨.opened n, rfl⟩
  | closed => exact ⟨.closed, rfl⟩

theorem isText_text (indent : Indent) (level : Nat) (e : Event String) :
    IsText (e.encoded.text indent level) := by
  cases e with
  | field name value =>
    rw [Event.text_of_ne (by simp [Event.encoded, Event.map])]
    exact Utf8.isText_line indent level (.field name value)
  | opened name =>
    rw [Event.text_of_ne (by simp [Event.encoded, Event.map])]
    exact Utf8.isText_line indent level (.opened name)
  | closed =>
    cases level with
    | zero => exact Utf8.isText_nil
    | succ outer => exact Utf8.isText_line indent (outer + 1) .closed

theorem isText_plain (indent : Indent) (level : Nat) {events : List (Event Bytes)}
    (h : ∀ e ∈ events, ∀ text ∈ e.texts, IsText text) : IsText (plain indent level events) := by
  induction events generalizing level with
  | nil => exact Utf8.isText_nil
  | cons e events ih =>
    obtain ⟨h_e, h_events⟩ := List.forall_mem_cons.mp h
    obtain ⟨e, rfl⟩ := Event.exists_encoded h_e
    exact (isText_text indent level e).append (ih _ h_events)

/-- What is written of names and values in characters is in characters. -/
theorem isText_plain_calls (indent : Indent) {calls : List Writer.Call}
    (h : ∀ e, .put e ∈ calls → ∀ text ∈ e.texts, IsText text) :
    IsText (plain indent 0 (calls.flatMap Writer.Call.events)) := by
  apply isText_plain
  intro e h_mem
  obtain ⟨call, h_call, h_event⟩ := List.mem_flatMap.mp h_mem
  cases call with
  | put e' =>
    obtain rfl := List.mem_singleton.mp h_event
    exact h e h_call
  | putFields f =>
    -- The texts of a tree are texts already.
    obtain ⟨e', -, rfl⟩ := List.mem_map.mp h_event
    exact e'.isText_of_encoded
  | flush => cases h_event

/-! ## Both directions -/

namespace Stream

/-- The names and values of a property are in characters, and asking for them as characters
loses nothing. -/
structure HandsOutExactly {ι : Type} [Input ι] (s : Stream ι) (p : Property) : Prop where
  texts : ∀ text ∈ p.event.texts, IsText text
  name : Utf8.encode p.nameText = p.name
  value : ∀ value, p.content = .text value →
    (s.value p).1 = value ∧ Utf8.encode (s.valueText p).1 = value

theorem handsOutExactly {ι : Type} [Input ι] (s : Stream ι) {p : Property}
    (h : ∀ text ∈ p.event.texts, IsText text) : s.HandsOutExactly p := by
  obtain ⟨name, content⟩ := p
  have h_name : IsText name := by
    apply h
    cases content <;> simp [Property.event, Event.texts]
  refine ⟨h, h_name.encode_decode, ?_⟩
  rintro value rfl
  have h_value : IsText value := h value (by simp [Property.event, Event.texts])
  exact ⟨rfl, h_value.encode_decode⟩

section

variable {σ : Type} [Source σ] {s : Stream (ReadAhead σ)}

/-- What is handed out of a stretch of a text in characters is in characters. -/
theorem texts_of_next (h : Utf8.IsWithin s.input.unread.bytes) {object : ObjectId} {p : Property}
    {s' : Stream (ReadAhead σ)} (h_next : s.next object = (some p, s')) :
    ∀ text ∈ p.event.texts, IsText text := by
  have h_map := next_map (s := s) ReadAhead.view_unread object
  rw [h_next] at h_map
  exact within_invariant.next_some isText_of_readProperty h h_map

theorem texts_of_take (h : Utf8.IsWithin s.input.unread.bytes) {object : ObjectId} {count : Nat}
    {p : Property} (h_mem : p ∈ (s.take object count).1) : ∀ text ∈ p.event.texts, IsText text := by
  have h_map := take_map (s := s) ReadAhead.view_unread object count
  rw [show (s.take object count).1 = ((s.map ReadAhead.unread).take object count).1 by
    rw [h_map]; rfl] at h_mem
  exact within_invariant.mem_take isText_of_readProperty h h_mem

theorem texts_of_walk (h : Utf8.IsWithin s.input.unread.bytes) {object : ObjectId}
    {e : Event Bytes} (h_mem : e ∈ (s.walk object).1) : ∀ text ∈ e.texts, IsText text := by
  have h_map := walk_map (s := s) ReadAhead.view_unread object
  rw [show (s.walk object).1 = ((s.map ReadAhead.unread).walk object).1 by
    rw [h_map]; rfl] at h_mem
  rcases within_invariant.mem_walkOnto isText_of_readProperty h h_mem with
    h_seen | rfl | ⟨p, h_p, rfl⟩
  · cases h_seen
  · simp [Event.texts]
  · exact h_p

theorem within_performAll {source : σ} {options : ReaderOptions} {document : Bytes}
    (h_document : IsText document)
    (h_source : (Source.delivered source (max options.bufferSize 1)).1 <+: document)
    (calls : List Call) :
    Utf8.IsWithin ((ofSource source options).performAll calls).2.input.unread.bytes := by
  obtain ⟨after, rfl⟩ := h_source
  have h_start : Utf8.IsWithin (Source.delivered source (max options.bufferSize 1)).1 :=
    ⟨[], after, h_document⟩
  have h_end := within_invariant.performAll
    (s := (ofSource source options).map ReadAhead.unread) h_start calls
  rwa [performAll_map ReadAhead.view_unread] at h_end

/-- Characters stay whole.  What is handed out of a document in characters, or of a front part
of it where the source fails, is in characters, so asking for it as characters, and reading it
as a tree, loses nothing.  What is written of names and values in characters is in characters,
and so is a tree that is shown as a document. -/
theorem characters_stay_whole {τ : Type} [Sink τ] {document : Bytes} (h_document : IsText document)
    (source : σ) (options : ReaderOptions)
    (h_source : (Source.delivered source (max options.bufferSize 1)).1 <+: document)
    {held : τ → Bytes} (h_sink : Sink.Keeps held) {sink : τ} (h_empty : held sink = [])
    (layout : WriterOptions) :
    (∀ calls : List Call,
      let s := ((ofSource source options).performAll calls).2
      (∀ object p s', s.next object = (some p, s') → s'.HandsOutExactly p) ∧
        (∀ object count, ∀ p ∈ (s.take object count).1, s.HandsOutExactly p) ∧
        (∀ object, (∀ e ∈ (s.walk object).1, ∀ text ∈ e.texts, IsText text) ∧
          (s.readFields object).1.toEvents.map Event.encoded = (s.walk object).1) ∧
        ∀ f, s.load.1 = .ok f → f.toEvents.map Event.encoded = (s.walk rootId).1) ∧
    (∀ calls : List Writer.Call,
      (∀ e, .put e ∈ calls → ∀ text ∈ e.texts, IsText text) →
      let w := (Writer.ofSink sink layout).performAll calls
      (w.error = none → IsText (held w.sink ++ w.buffer.toList)) ∧
        ∀ s, w.finish = .ok s →
          held s = plain layout.indent 0 (calls.flatMap Writer.Call.events) ∧ IsText (held s)) ∧
    ∀ f : Fields, Utf8.encode f.dump = f.document {} := by
  refine ⟨?_, ?_, Fields.encode_dump⟩
  · intro calls s
    have h_within : Utf8.IsWithin s.input.unread.bytes :=
      within_performAll h_document h_source calls
    have h_walk (object : ObjectId) : ∀ e ∈ (s.walk object).1, ∀ text ∈ e.texts, IsText text :=
      fun e h_mem => texts_of_walk h_within h_mem
    refine ⟨?_, ?_, ?_, ?_⟩
    · intro object p s' h_next
      exact s'.handsOutExactly (texts_of_next h_within h_next)
    · intro object count p h_mem
      exact s.handsOutExactly (texts_of_take h_within h_mem)
    · intro object
      exact ⟨h_walk object, toEvents_readFields (h_walk object)⟩
    · intro f h_load
      exact toEvents_load (h_walk rootId) h_load
  · intro calls h_calls w
    have h_text := isText_plain_calls layout.indent h_calls
    refine ⟨?_, ?_⟩
    · intro h_error
      obtain ⟨level, h_ready⟩ := Writer.ready_performAll h_sink h_empty layout h_error
      rw [h_ready.text_eq]
      exact h_text
    · intro s h_finish
      have h_held := Writer.held_of_finish_performAll h_sink h_empty layout h_finish
      exact ⟨h_held, h_held ▸ h_text⟩

end

/-- A name and a value beyond ASCII, read byte by byte in front of a fault, and written into a
sink that takes two bytes at a time. -/
theorem characters_stay_whole_bytewise :
    let source : ScriptedSource :=
      { schedule := { pieces := #[1] }, rest := Utf8.encode "\"ä\": \"é\\n€\" :" }
    let sink : ScriptedSink := { behaviour := { maxWrite := 2 } }
    let p : Property := ⟨Utf8.encode "ä", .text (Utf8.encode "é\n€")⟩
    let s := (ofSource source {}).next rootId
    (s.1 = some p ∧ s.2.HandsOutExactly p ∧ p.nameText = "ä") ∧
      ∃ t : ScriptedSink,
        ((Writer.ofSink sink {}).performAll [.put p.event]).finish = .ok t ∧
          t.held.toList = Utf8.encode "\"ä\": \"é\\n€\"\n" ∧ IsText t.held.toList := by
  intro source sink p s
  have h_delivered : (Source.delivered source 256).1 = source.rest := by decide +kernel
  have h_source : (Source.delivered source (max ({} : ReaderOptions).bufferSize 1)).1 <+:
      source.rest := h_delivered ▸ List.prefix_refl _
  have h_read : s.1 = some p := by decide +kernel
  have h_texts : ∀ text ∈ p.event.texts, IsText text :=
    (Event.field "ä" "é\n€").isText_of_encoded
  have h_empty : sink.held.toList = [] := rfl
  obtain ⟨h_reads, h_writes, -⟩ := characters_stay_whole (Utf8.isText_encode _) source {} h_source
    ScriptedSink.keeps h_empty {}
  have h_out : s.2.HandsOutExactly p := (h_reads []).1 rootId p _ (Prod.ext h_read rfl)
  -- The sink never fails, so neither does the writer.
  have h_patient : sink.IsPatient := ⟨rfl, by decide, rfl⟩
  have h_start : Writer.Extends (fun s : ScriptedSink => s.held.toList) ScriptedSink.IsPatient
      (Writer.ofSink sink {}) (Writer.ofSink sink {}) 0 [] := .refl h_patient rfl
  have h_depth : Event.depthAfter 0 [p.event] = some 0 := rfl
  have h_put := h_start.putAll ScriptedSink.accepting h_depth
  have h_finish := Writer.finish_of_flush (h_put.flush ScriptedSink.accepting).1.error
  obtain ⟨h_held, h_text⟩ := (h_writes [.put p.event] (by simpa using h_texts)).2 _ h_finish
  exact ⟨⟨h_read, h_out, by decide +kernel⟩, _, h_finish, h_held.trans (by decide +kernel), h_text⟩

end Stream
end PropertyText
