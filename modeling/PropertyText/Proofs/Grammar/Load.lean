/-
  PropertyText.Proofs.Grammar.Load

  A stream accepts the documents of the grammar and no other text: behind the events of the
  tokens that can be read it comes to the end of a document (`Document.remaining`) or to
  the first fault (`FirstFault.remaining`).  Main statement:
  `Fields.ofBytes_iff_document`.
-/
import PropertyText.Proofs.Grammar.Document
import PropertyText.Proofs.Grammar.Scan
import PropertyText.Proofs.Source.Delivered
import PropertyText.Proofs.Stream.Remaining

namespace PropertyText

open Grammar

namespace Stream

theorem readProperty_of_name {ι : Type} [Input ι] {s s' : Stream ι} {name : Bytes}
    (h : s.takeToken = (some (.text name), s')) : s.readProperty = s'.readContent name := by
  rw [readProperty, h]

theorem atTop_of_length {ι : Type} {s : Stream ι} {depth : Nat}
    (h : s.path.length = depth + 1) : s.atTop = (depth == 0) := by
  obtain ⟨object, outer, h_path⟩ := List.exists_cons_of_length_eq_add_one h
  rw [h_path, List.length_cons, Nat.add_right_cancel_iff] at h
  rw [atTop, h_path, ← h]
  cases outer <;> rfl

/-! ## Tokens that lie ahead of a stream -/

/-- Ahead of the stream lie some tokens, and behind them a text that begins on a line. -/
structure Ahead (s : Stream Unread) (comments : Bool) (tokens : List Token) (rest : Bytes)
    (line : Nat) : Prop where
  running : s.Running
  comments_eq : s.comments = comments
  scan : ∃ text start, start + newlines text = line ∧ Tokens comments text tokens rest ∧
    Token.scan comments s.mode s.input =
      Token.scan comments .blank ⟨text ++ rest, none, start⟩

namespace Ahead

variable {s : Stream Unread} {comments : Bool} {tokens : List Token} {token : Token}
  {rest : Bytes} {line : Nat}

theorem takeToken_eq (h : s.Ahead comments tokens rest line) :
    s.takeToken =
      match Token.scan comments s.mode s.input with
      | (.ok token, input) => (some token, s.behind input)
      | (.error fault, input) => (none, s.failedAt input (fault.onLine input.line)) := by
  obtain rfl := h.comments_eq
  rw [takeToken_of_none h.running.1]
  rcases Token.scan s.comments s.mode s.input with ⟨fault | token, input⟩ <;> rfl

/-- The next token is read, and the others lie ahead. -/
theorem takeToken (h : s.Ahead comments (token :: tokens) rest line) :
    ∃ input, s.takeToken = (some token, s.behind input) ∧
      (s.behind input).Ahead comments tokens rest line ∧
      (tokens = [] → input.line = line) := by
  have h_take := h.takeToken_eq
  obtain ⟨text, start, h_line, h_tokens, h_scan⟩ := h.scan
  cases h_tokens with
  | @cons separator raw text _ _ _ h_separator h_lexeme h_maximal h_tokens =>
    rw [h_scan, List.append_assoc, List.append_assoc, scan_separator h_separator,
      scan_lexeme h_lexeme h_maximal] at h_take
    refine ⟨_, h_take, ⟨h.running, h.comments_eq, text, _, ?_, h_tokens, rfl⟩, ?_⟩
    · simp only [newlines_append] at h_line
      omega
    · rintro rfl
      cases h_tokens
      simp only [newlines_append, newlines_nil] at h_line
      show start + newlines separator + newlines raw = line
      omega

theorem token_ne_ended (h : s.Ahead comments (token :: tokens) rest line) : token ≠ .ended := by
  obtain ⟨text, start, -, h_tokens, -⟩ := h.scan
  cases h_tokens with
  | cons _ h_lexeme _ _ =>
    rintro rfl
    cases h_lexeme

/-- A fault is recorded with the line to which it extends. -/
theorem takeToken_fault {separator broken : Bytes} {cause : Malformation}
    (h : s.Ahead comments [] (separator ++ broken ++ rest) line)
    (h_separator : Separator comments separator) (h_fault : Fault comments broken rest cause) :
    ∃ input, s.takeToken = (none, s.failedAt input
      (.malformed (line + newlines (separator ++ broken)) cause)) := by
  have h_take := h.takeToken_eq
  obtain ⟨text, start, h_line, h_tokens, h_scan⟩ := h.scan
  cases h_tokens
  rw [h_scan, List.nil_append, List.append_assoc, scan_separator h_separator,
    scan_fault h_fault] at h_take
  -- With no token in front, the text begins on the line itself.
  have h_total : start + newlines separator + newlines broken =
      line + newlines (separator ++ broken) := by
    simp only [newlines_append, newlines_nil] at h_line ⊢
    omega
  exact ⟨_, h_total ▸ h_take⟩

/-- Where nothing but a trailer stands, the end of the text is found. -/
theorem takeToken_trailer (h : s.Ahead comments [] rest line) (h_trailer : Trailer comments rest) :
    ∃ input, s.takeToken = (some .ended, s.behind input) ∧
      input.line = line + newlines rest := by
  have h_take := h.takeToken_eq
  obtain ⟨text, start, h_line, h_tokens, h_scan⟩ := h.scan
  cases h_tokens
  rw [h_scan, List.nil_append, scan_trailer h_trailer] at h_take
  refine ⟨_, h_take, ?_⟩
  simp only [newlines_nil] at h_line
  show start + newlines rest = line + newlines rest
  omega

/-! ### Events -/

/-- The event whose tokens lie ahead is the next one. -/
theorem readEvent {e : Event Bytes} {depth depth' : Nat}
    (h : s.Ahead comments (e.tokens ++ tokens) rest line) (h_path : s.path.length = depth + 1)
    (h_depth : Event.depthAfter depth [e] = some depth') :
    ∃ s', s.readEvent = (some e, s') ∧ s'.Ahead comments tokens rest line ∧
      s'.path.length = depth' + 1 := by
  have h_run := h.running
  cases e with
  | field name value =>
    obtain rfl := Option.some.inj h_depth
    obtain ⟨i, h_name, h, -⟩ := h.takeToken
    obtain ⟨j, h_colon, h, -⟩ := h.takeToken
    obtain ⟨k, h_value, h, -⟩ := h.takeToken
    refine ⟨_, ?_, h, h_path⟩
    rw [Stream.readEvent, if_pos h_run, readProperty_of_name h_name, readContent, h_colon]
    dsimp only
    rw [h_value]
  | opened name =>
    obtain rfl := Option.some.inj h_depth
    obtain ⟨i, h_name, h, -⟩ := h.takeToken
    obtain ⟨j, h_brace, h, -⟩ := h.takeToken
    refine ⟨((s.behind i).behind j).openObject.2, ?_, ⟨h.running, h.comments_eq, h.scan⟩, ?_⟩
    · rw [Stream.readEvent, if_pos h_run, readProperty_of_name h_name, readContent, h_brace]
    · simp [openObject, h_path]
  | closed =>
    cases depth with
    | zero => cases h_depth
    | succ depth =>
      obtain rfl := Option.some.inj h_depth
      obtain ⟨i, h_brace, h, -⟩ := h.takeToken
      -- The depth says that an object is open here, so the brace closes one.
      have h_inside : s.atTop = false := atTop_of_length h_path
      refine ⟨(s.behind i).close, ?_, ⟨h.running, h.comments_eq, h.scan⟩, ?_⟩
      · rw [Stream.readEvent, if_pos h_run, readProperty, h_brace]
        dsimp only
        rw [atTop_behind, h_inside]
        exact congrArg (·, _) (if_pos h.running)
      · simp [close, h_path]

/-- The events whose tokens lie ahead are the next ones. -/
theorem remaining {events : List (Event Bytes)} {depth depth' : Nat}
    (h : s.Ahead comments (events.flatMap Event.tokens ++ tokens) rest line)
    (h_path : s.path.length = depth + 1) (h_depth : Event.depthAfter depth events = some depth') :
    ∃ s' : Stream Unread, s.remaining = s'.remaining.map (events ++ ·) id ∧
      s'.Ahead comments tokens rest line ∧ s'.path.length = depth' + 1 := by
  induction events generalizing s depth with
  | nil =>
    obtain rfl := Option.some.inj h_depth
    exact ⟨s, rfl, h, h_path⟩
  | cons e events ih =>
    -- The first event is read, and the others lie ahead of the stream behind it.
    rw [← List.singleton_append, Event.depthAfter_append] at h_depth
    obtain ⟨middle, h_event, h_rest⟩ := Option.bind_eq_some_iff.mp h_depth
    rw [List.flatMap_cons, List.append_assoc] at h
    obtain ⟨s₁, h_read, h_ahead, h_path₁⟩ := h.readEvent h_path h_event
    obtain ⟨s', h_remaining, h_ahead', h_path'⟩ := ih h_ahead h_path₁ h_rest
    refine ⟨s', ?_, h_ahead', h_path'⟩
    rw [remaining_of_some h_read, h_remaining]
    rfl

/-! ### Faults -/

/-- Behind the beginning of a property, a fault and a token that may not follow are both
recorded as errors. -/
theorem readProperty_of_part {part : List Token} {wanted : Wanted} (h_part : Part part wanted)
    (h : s.Ahead comments (part ++ tokens) rest line) :
    ∃ s' : Stream Unread, s'.Ahead comments tokens rest line ∧
      (∀ input e, s'.takeToken = (none, s'.failedAt input e) →
        s.readProperty = (none, s.failedAt input e)) ∧
      ∀ token input, s'.takeToken = (some token, s'.behind input) → wanted.Bars s.atTop token →
        s.readProperty =
          (none, s.failedAt input (.malformed input.line (wanted.refuses token))) := by
  have h_error := h.running.1
  -- The tokens of the part are read without fault; the next one meets the stream behind them.
  cases h_part with
  | nil =>
    refine ⟨s, h, ?_, ?_⟩
    · intro input e h_take
      rw [readProperty, h_take]
    · intro token input h_take h_bars
      rw [readProperty, h_take]
      cases token with
      | text name => exact absurd h_bars id
      | colon | openBrace => exact congrArg (none, ·) (refuse_behind h_error input _)
      | closeBrace =>
        dsimp only
        rw [atTop_behind, show s.atTop = true from h_bars, if_pos rfl, refuse_behind h_error]
        rfl
      | ended =>
        dsimp only
        rw [atTop_behind, show s.atTop = false from h_bars, refuse_behind h_error]
        rfl
  | name name =>
    obtain ⟨i, h_name, h, -⟩ := h.takeToken
    refine ⟨_, h, ?_, ?_⟩
    · intro input e h_take
      rw [readProperty_of_name h_name, readContent, h_take]
      exact congrArg (none, ·) (refuse_failedAt s input e _)
    · intro token input h_take h_bars
      rw [readProperty_of_name h_name, readContent, h_take]
      cases token with
      | colon | openBrace => exact absurd h_bars id
      | text _ | closeBrace | ended =>
        exact congrArg (none, ·) (refuse_behind h_error input _)
  | colon name =>
    obtain ⟨i, h_name, h, -⟩ := h.takeToken
    obtain ⟨j, h_colon, h, -⟩ := h.takeToken
    refine ⟨_, h, ?_, ?_⟩
    · intro input e h_take
      rw [readProperty_of_name h_name, readContent, h_colon]
      dsimp only
      rw [h_take]
      exact congrArg (none, ·) (refuse_failedAt s input e _)
    · intro token input h_take h_bars
      rw [readProperty_of_name h_name, readContent, h_colon]
      dsimp only
      rw [h_take]
      cases token with
      | text _ => exact absurd h_bars id
      | colon | openBrace | closeBrace | ended =>
        exact congrArg (none, ·) (refuse_behind h_error input _)

end Ahead

theorem error_remaining_of_failed {s : Stream Unread} (h : s.Running) {input : Unread} {e : Error}
    (h_read : s.readProperty = (none, s.failedAt input e)) :
    s.remaining.2.error = some e := by
  have h_event : s.readEvent = (none, s.failedAt input e) := by
    rw [readEvent, if_pos h, h_read]
    simp [Running, failedAt]
  rw [remaining_of_none h_event]
  rfl

/-- Behind some events and the beginning of a property, a fault and a token that may not
follow end the reading. -/
theorem Ahead.error_remaining {s : Stream Unread} {comments : Bool}
    {events : List (Event Bytes)} {part tokens : List Token} {wanted : Wanted} {rest : Bytes}
    {line depth : Nat}
    (h : s.Ahead comments (events.flatMap Event.tokens ++ part ++ tokens) rest line)
    (h_path : s.path.length = 1) (h_depth : Event.depthAfter 0 events = some depth)
    (h_part : Part part wanted) :
    ∃ s' : Stream Unread, s'.Ahead comments tokens rest line ∧
      (∀ input e, s'.takeToken = (none, s'.failedAt input e) → s.remaining.2.error = some e) ∧
      ∀ token input, s'.takeToken = (some token, s'.behind input) →
        wanted.Bars (depth == 0) token →
        s.remaining.2.error = some (.malformed input.line (wanted.refuses token)) := by
  rw [List.append_assoc] at h
  -- First the events, then the part, and then the token that decides.
  obtain ⟨s₁, h_remaining, h, h_path₁⟩ := h.remaining h_path h_depth
  have h_run := h.running
  obtain ⟨s', h, h_fault, h_token⟩ := h.readProperty_of_part h_part
  rw [atTop_of_length h_path₁] at h_token
  refine ⟨s', h, ?_, ?_⟩
  · intro input e h_take
    rw [h_remaining]
    exact error_remaining_of_failed h_run (h_fault input e h_take)
  · intro token input h_take h_bars
    rw [h_remaining]
    exact error_remaining_of_failed h_run (h_token token input h_take h_bars)

/-- At the end of a document nothing is left. -/
theorem Ahead.remaining_trailer {s : Stream Unread} {comments : Bool} {rest : Bytes} {line : Nat}
    (h : s.Ahead comments [] rest line) (h_trailer : Trailer comments rest)
    (h_path : s.path.length = 1) : s.remaining.1 = [] ∧ s.remaining.2.error = none := by
  obtain ⟨input, h_take, -⟩ := h.takeToken_trailer h_trailer
  have h_top : s.atTop = true := atTop_of_length h_path
  have h_event : s.readEvent = (none, { s.behind input with finished := true }) := by
    rw [Stream.readEvent, if_pos h.running, readProperty, h_take]
    dsimp only
    rw [atTop_behind, h_top]
    simp [Running]
  rw [remaining_of_none h_event]
  exact ⟨rfl, h.running.1⟩

/-- At the start of a text its first tokens lie ahead. -/
theorem ahead_ofInput {comments : Bool} {taken rest : Bytes} {tokens : List Token}
    (h : Start comments taken tokens rest) :
    (ofInput ({ bytes := taken ++ rest } : Unread) comments).Ahead comments tokens rest
      (1 + newlines taken) := by
  cases h with
  | @intro front text rest tokens h_front h_tokens =>
    refine ⟨⟨rfl, rfl⟩, rfl, text, 1 + newlines front, ?_, h_tokens, ?_⟩
    · rw [newlines_append, Nat.add_assoc]
    · rw [List.append_assoc]
      exact scan_opening h_front

/-- A stream over a text that stands ready is one over its bytes. -/
theorem map_unread_ofSlice (text : Bytes) (options : ReaderOptions) :
    (ofSource ({ rest := text } : Slice) options).map ReadAhead.unread =
      ofInput { bytes := text } options.comments := by
  rw [ReadAhead.map_unread_ofSource, Slice.delivered_eq text _ (by omega)]

end Stream

/-! ## Documents and faults -/

namespace Grammar

variable {comments : Bool} {text : Bytes}

/-- The events of a document's tree are read, and no error is found. -/
theorem Document.remaining {t : Tree} (h : Document comments text t) :
    (Stream.ofInput ({ bytes := text } : Unread) comments).remaining.1 = t.events ∧
      (Stream.ofInput ({ bytes := text } : Unread) comments).remaining.2.error = none := by
  cases h with
  | @intro taken rest tokens t h_start h_trailer h_body =>
    rw [body_iff, ← List.append_nil (t.events.flatMap _)] at h_body
    obtain ⟨s', h_remaining, h_ahead, h_path⟩ :=
      (Stream.ahead_ofInput (h_body ▸ h_start)).remaining rfl (t.depthAfter_events 0)
    obtain ⟨h_nil, h_error⟩ := h_ahead.remaining_trailer h_trailer h_path
    rw [h_remaining]
    exact ⟨by simp [h_nil], h_error⟩

/-- A document that begins like a byte-order mark begins with one. -/
theorem Document.mark_of_head {t : Tree} (h : Document comments text t)
    (h_head : text.head? = some 0xef) : [0xef, 0xbb, 0xbf] <+: text := by
  cases h with
  | intro h_start _ _ =>
    cases h_start with
    | intro h_front _ =>
      rw [List.append_assoc] at h_head ⊢
      cases h_front with
      | mark => exact List.prefix_append _ _
      | none h_first => exact absurd h_head h_first

/-- At its first fault a text is given up. -/
theorem FirstFault.remaining {line : Nat} {cause : Malformation}
    (h : FirstFault comments text line cause) :
    (Stream.ofInput ({ bytes := text } : Unread) comments).remaining.2.error =
      some (.malformed line cause) := by
  cases h with
  | @mark broken rest h_mark =>
    have h_scan : Token.scan comments .fresh (⟨broken ++ rest, none, 1⟩ : Unread) = _ :=
      scan_brokenMark h_mark
    have h_read : (Stream.ofInput ({ bytes := broken ++ rest } : Unread) comments).readProperty =
        (none, Stream.failedAt (Stream.ofInput { bytes := broken ++ rest } comments)
          ⟨rest, none, 1 + newlines broken⟩ (.malformed (1 + newlines broken) .brokenMark)) := by
      -- Only a stream that has read nothing yet looks for a mark.
      simp only [Stream.readProperty, Stream.takeToken, Stream.ofInput, Stream.mode, if_true,
        h_scan]
      rfl
    exact Stream.error_remaining_of_failed ⟨rfl, rfl⟩ h_read
  | @lexical taken separator broken rest tokens cause h_start h_viable h_separator h_fault =>
    obtain ⟨wanted, h_wants⟩ := h_viable.exists_wants
    obtain ⟨h_part⟩ := h_wants
    obtain ⟨depth, h_depth⟩ := h_viable.exists_depth
    rw [← List.append_nil (_ ++ _)] at h_start
    obtain ⟨s, h_ahead, h_stop, -⟩ :=
      (Stream.ahead_ofInput h_start).error_remaining rfl h_depth h_part
    obtain ⟨input, h_take⟩ := h_ahead.takeToken_fault h_separator h_fault
    rw [h_stop input _ h_take, newlines_append, newlines_append, newlines_append]
    simp only [Nat.add_assoc]
  | @token taken rest tokens token wanted h_start h_viable h_not h_wants =>
    obtain ⟨h_part⟩ := h_wants
    obtain ⟨depth, h_depth⟩ := h_viable.exists_depth
    obtain ⟨s, h_ahead, -, h_stop⟩ :=
      (Stream.ahead_ofInput h_start).error_remaining rfl h_depth h_part
    obtain ⟨input, h_take, -, h_line⟩ := h_ahead.takeToken
    have h_bars := bars_of_not_viable h_part h_depth h_ahead.token_ne_ended h_not
    rw [h_stop token input h_take h_bars, h_line rfl]
  | @ended taken rest tokens wanted h_start h_trailer h_viable h_body h_wants =>
    obtain ⟨h_part⟩ := h_wants
    obtain ⟨depth, h_depth⟩ := h_viable.exists_depth
    have h_bars := bars_ended h_part h_depth h_body
    rw [← List.append_nil (_ ++ _)] at h_start
    obtain ⟨s, h_ahead, -, h_stop⟩ :=
      (Stream.ahead_ofInput h_start).error_remaining rfl h_depth h_part
    obtain ⟨input, h_take, h_line⟩ := h_ahead.takeToken_trailer h_trailer
    rw [h_stop .ended input h_take h_bars, h_line, newlines_append, Nat.add_assoc]

end Grammar
namespace Fields

theorem ofBytes_eq_load (text : Bytes) (options : ReaderOptions) :
    ofBytes text options =
      (Stream.ofInput ({ bytes := text } : Unread) options.comments).load.1 := by
  rw [← Stream.map_unread_ofSlice, Stream.load_map ReadAhead.view_unread]
  rfl

theorem ofBytes_of_document {text : Bytes} {options : ReaderOptions} {t : Tree}
    (h : Document options.comments text t) : ofBytes text options = .ok t.decoded := by
  obtain ⟨h_events, h_error⟩ := h.remaining
  rw [ofBytes_eq_load, Stream.load_eq_remaining ⟨rfl, rfl⟩ rfl, h_error, h_events]
  exact congrArg Except.ok t.ofEvents_events

theorem ofBytes_of_firstFault {text : Bytes} {options : ReaderOptions} {line : Nat}
    {cause : Malformation} (h : FirstFault options.comments text line cause) :
    ofBytes text options = .error (.malformed line cause) := by
  rw [ofBytes_eq_load, Stream.load_eq_remaining ⟨rfl, rfl⟩ rfl, h.remaining]

/-- Each text is a document or has a first fault, and either settles the outcome. -/
theorem exists_document {text : Bytes} {options : ReaderOptions} {f : Fields}
    (h : ofBytes text options = .ok f) :
    ∃ t, Document options.comments text t ∧ t.decoded = f := by
  rcases document_or_firstFault options.comments text with ⟨t, h_t⟩ | ⟨line, cause, h_fault⟩
  · rw [ofBytes_of_document h_t] at h
    exact ⟨t, h_t, Except.ok.inj h⟩
  · rw [ofBytes_of_firstFault h_fault] at h
    cases h

theorem exists_firstFault {text : Bytes} {options : ReaderOptions} {e : Error}
    (h : ofBytes text options = .error e) :
    ∃ line cause, FirstFault options.comments text line cause ∧ e = .malformed line cause := by
  rcases document_or_firstFault options.comments text with ⟨t, h_t⟩ | ⟨line, cause, h_fault⟩
  · rw [ofBytes_of_document h_t] at h
    cases h
  · rw [ofBytes_of_firstFault h_fault] at h
    exact ⟨line, cause, h_fault, (Except.error.inj h).symm⟩

/-- A text is loaded if and only if it is a document, as the tree that the document denotes.
Every other text is refused with the place and the cause of its first fault.  A text that
begins like a byte-order mark is a document only behind a whole one. -/
theorem ofBytes_iff_document (text : Bytes) (options : ReaderOptions) :
    (∀ f, ofBytes text options = .ok f ↔
        ∃ t, Document options.comments text t ∧ t.decoded = f) ∧
      (∀ e, ofBytes text options = .error e ↔
        ∃ line cause, FirstFault options.comments text line cause ∧
          e = .malformed line cause) ∧
      ∀ t, Document options.comments text t → text.head? = some 0xef →
        [0xef, 0xbb, 0xbf] <+: text := by
  refine ⟨fun f => ⟨exists_document, ?_⟩, fun e => ⟨exists_firstFault, ?_⟩, ?_⟩
  · rintro ⟨t, h_t, rfl⟩
    exact ofBytes_of_document h_t
  · rintro ⟨line, cause, h_fault, rfl⟩
    exact ofBytes_of_firstFault h_fault
  · intro t h_t h_head
    exact h_t.mark_of_head h_head

end Fields
end PropertyText
