/-
  PropertyText.Proofs.Grammar.Composition

  Documents put together from documents.  A newline ends whatever a document ends with, a
  bare string or a comment, so what stands behind it is read as if it stood alone, only
  that its lines are counted on (`Document.append`, `FirstFault.behind`); and a document
  between the braces of an object is what the object holds (`Document.inside`).  Main
  statement: `Fields.ofBytes_compose`.
-/
import PropertyText.Proofs.Fields.RoundTrip

namespace PropertyText

open Grammar

namespace Tree

/-- The properties of one object and, behind them, those of another. -/
def append : Tree → Tree → Tree
  | .empty, u => u
  | .field name value rest, u => .field name value (rest.append u)
  | .object name inner rest, u => .object name inner (rest.append u)

theorem events_append (t u : Tree) : (t.append u).events = t.events ++ u.events := by
  induction t with
  | empty => rfl
  | field name value rest ih => simp [append, events, ih]
  | object name inner rest _ ih => simp [append, events, ih]

theorem decoded_append (t u : Tree) : (t.append u).decoded = t.decoded ++ u.decoded := by
  induction t with
  | empty => rfl
  | field name value rest ih => simp [append, decoded, ih]
  | object name inner rest _ ih => simp [append, decoded, ih]

theorem ofFields_append (f g : Fields) : ofFields (f ++ g) = (ofFields f).append (ofFields g) := by
  induction f with
  | nil => simp [ofFields, append]
  | cons p f ih =>
    obtain ⟨name, value⟩ := p
    cases value <;> simp [ofFields, append, ih]

end Tree

namespace Grammar

variable {comments : Bool} {tokens more : List Token} {t u : Tree}

/-! ## Behind a body -/

theorem Body.append (h : Body tokens t) (h_more : Body more u) :
    Body (tokens ++ more) (t.append u) := by
  rw [body_iff] at h h_more ⊢
  rw [Tree.events_append, List.flatMap_append, h, h_more]

/-- What completes a body to a longer one is a body itself. -/
theorem Body.of_append {whole : Tree} (h : Body tokens t) (h_whole : Body (tokens ++ more) whole) :
    ∃ u, Body more u := by
  rw [body_iff] at h h_whole
  subst h
  obtain ⟨events, h_events, rfl⟩ := exists_events_append h_whole
  -- Nothing is open between the two parts, so the second opens what it closes.
  have h_depth := whole.depthAfter_events 0
  rw [h_events, Event.depthAfter_append, t.depthAfter_events, Option.bind_some] at h_depth
  obtain ⟨u, rfl⟩ := (Tree.exists_events_iff events).mpr h_depth
  exact ⟨u, body_events u⟩

/-- A body has no influence on how the tokens behind it can be continued. -/
theorem Body.viable_append (h : Body tokens t) : Viable (tokens ++ more) ↔ Viable more := by
  constructor
  · rintro ⟨rest, whole, h_whole⟩
    rw [List.append_assoc] at h_whole
    exact ⟨rest, h.of_append h_whole⟩
  · rintro ⟨rest, u, h_more⟩
    refine ⟨rest, t.append u, ?_⟩
    rw [List.append_assoc]
    exact h.append h_more

theorem Body.wants_append {wanted : Wanted} (h : Body tokens t) (h_more : Wants more wanted) :
    Wants (tokens ++ more) wanted := by
  obtain rfl := body_iff.mp h
  cases h_more with
  | @intro events part wanted h_part =>
    rw [← List.append_assoc, ← List.flatMap_append]
    exact .intro h_part

/-! ## Behind tokens -/

variable {text rest : Bytes}

theorem Maximal.append {raw : Bytes} (h : Maximal raw rest)
    (h_text : ∀ b ∈ text.head?, isBareByte b = false) : Maximal raw (rest ++ text) := by
  intro h_bare b h_mem
  cases rest with
  | nil => exact h_text b h_mem
  | cons c rest => exact h h_bare b h_mem

/-- Tokens stay what they are when more text is put behind them, unless a bare string goes on
with it. -/
theorem Tokens.widen {taken : Bytes} (h : Tokens comments taken tokens rest)
    (h_text : ∀ b ∈ text.head?, isBareByte b = false) :
    Tokens comments taken tokens (rest ++ text) := by
  induction h with
  | nil => exact .nil
  | cons h_separator h_lexeme h_maximal _ ih =>
    have h_wide := h_maximal.append h_text
    rw [List.append_assoc] at h_wide
    exact .cons h_separator h_lexeme h_wide ih

theorem Tokens.append {a b : Bytes} (h_a : Tokens comments a tokens (b ++ rest))
    (h_b : Tokens comments b more rest) : Tokens comments (a ++ b) (tokens ++ more) rest := by
  generalize h_behind : b ++ rest = behind at h_a
  induction h_a with
  | nil => exact h_b
  | @cons separator raw text _ token tokens h_separator h_lexeme h_maximal _ ih =>
    subst h_behind
    rw [List.append_assoc]
    rw [← List.append_assoc text] at h_maximal
    exact .cons h_separator h_lexeme h_maximal (ih rfl)

/-- Tokens may be put before a text of which the reading is known. -/
theorem Reading.behind {taken : Bytes} {outcome : Outcome}
    (h_taken : Tokens comments taken tokens text) (h : Reading comments text more outcome) :
    Reading comments (taken ++ text) (tokens ++ more) (outcome.behind (newlines taken)) := by
  induction h_taken with
  | nil => simpa using h
  | @cons separator raw taken text token tokens h_separator h_lexeme h_maximal _ ih =>
    have h_token := ((ih h).token h_lexeme h_maximal).separator h_separator
    simpa [Outcome.behind_behind] using h_token

/-! ## Behind a document -/

/-- A newline ends a comment that may stand at the end of a document. -/
theorem Trailer.newline (h : Trailer comments text) :
    Separator comments (text ++ [Ascii.newline]) := by
  cases h with
  | separator h => exact h.append (.blank rfl .nil)
  | comment h_comments h h_words =>
    rw [List.append_assoc]
    exact h.append (.comment h_comments h_words .nil)

theorem head_append_newline (h : text.head? ≠ some 0xef) (more : Bytes) :
    (text ++ Ascii.newline :: more).head? ≠ some 0xef := by
  cases text with
  | nil => exact fun h_newline => absurd (Option.some.inj h_newline) (by decide)
  | cons b text => exact h

/-- A document and a newline, with any text behind them: the tokens are those of the document,
and something that separates tokens follows them. -/
theorem Document.split (h : Document comments text t) :
    ∃ front taken separator tokens, text ++ [Ascii.newline] = front ++ (taken ++ separator) ∧
      Separator comments separator ∧ Body tokens t ∧ (text.head? ≠ some 0xef → front = []) ∧
      ∀ behind, Opening front (taken ++ (separator ++ behind)) ∧
        Tokens comments taken tokens (separator ++ behind) := by
  cases h with
  | @intro taken rest tokens t h_start h_trailer h_body =>
    cases h_start with
    | @intro front taken rest tokens h_front h_tokens =>
      refine ⟨front, taken, rest ++ [Ascii.newline], tokens, by simp, h_trailer.newline, h_body,
        ?_, fun behind => ⟨?_, ?_⟩⟩
      · intro h_head
        cases h_front with
        | mark => exact absurd rfl h_head
        | none _ => rfl
      · cases h_front with
        | mark => exact .mark
        | none h_head =>
          have h_behind := head_append_newline h_head behind
          rw [List.append_assoc] at h_behind ⊢
          exact .none h_behind
      · rw [List.append_assoc]
        exact h_tokens.widen (by simp; rfl)

/-- Behind a document and a newline, tokens start as in a document of their own.  Where there
are none, what ends the document belongs to what follows. -/
theorem Document.exists_start {taken : Bytes} (h : Document comments text t)
    (h_taken : Start comments taken more rest) (h_head : (taken ++ rest).head? ≠ some 0xef) :
    ∃ tokens front separator, Body tokens t ∧ Separator comments separator ∧
      Start comments front (tokens ++ more) (separator ++ rest) ∧
      front ++ separator = text ++ Ascii.newline :: taken ∧ (more ≠ [] → separator = []) := by
  obtain ⟨front, first, separator, tokens, h_text, h_separator, h_body, -, h_behind⟩ := h.split
  obtain ⟨h_opening, h_tokens⟩ := h_behind (taken ++ rest)
  cases h_taken with
  | @intro mark taken rest more h_mark h_more =>
    obtain rfl : mark = [] := by
      cases h_mark with
      | mark => exact absurd rfl h_head
      | none _ => rfl
    rw [List.nil_append] at h_opening h_tokens ⊢
    rw [List.append_cons, h_text]
    cases h_more with
    | nil =>
      refine ⟨tokens, front ++ first, separator, h_body, h_separator, ?_, by simp,
        fun h_ne => absurd rfl h_ne⟩
      rw [List.append_nil]
      exact .intro h_opening h_tokens
    | @cons space raw text _ token more h_first h_lexeme h_maximal h_more =>
      have h_all := Tokens.prepend h_separator (.cons h_first h_lexeme h_maximal h_more)
      rw [← List.append_assoc separator] at h_tokens h_opening
      rw [← List.append_assoc first] at h_opening
      exact ⟨tokens, front ++ (first ++ (separator ++ (space ++ raw ++ text))), [], h_body, .nil,
        .intro h_opening (h_tokens.append h_all), by simp, fun _ => rfl⟩

/-- A document, a newline and another document are a document. -/
theorem Document.append {a b : Bytes} (h_a : Document comments a t)
    (h_b : Document comments b u) (h_head : b.head? ≠ some 0xef) :
    Document comments (a ++ Ascii.newline :: b) (t.append u) := by
  cases h_b with
  | @intro taken rest more u h_start h_trailer h_more =>
    obtain ⟨tokens, front, separator, h_body, h_separator, h_front, h_text, -⟩ :=
      h_a.exists_start h_start h_head
    rw [← List.cons_append, ← List.append_assoc, ← h_text, List.append_assoc]
    exact .intro h_front (h_trailer.prepend h_separator) (h_body.append h_more)

/-- Behind a document and a newline, a text has its first fault where it has it by itself. -/
theorem FirstFault.behind {a b : Bytes} {line : Nat} {cause : Malformation}
    (h_a : Document comments a t) (h_b : FirstFault comments b line cause)
    (h_head : b.head? ≠ some 0xef) :
    FirstFault comments (a ++ Ascii.newline :: b) (line + 1 + newlines a) cause := by
  -- The lines of the document and the newline are counted before those of the text.
  have h_lines {front separator taken : Bytes}
      (h_text : front ++ separator = a ++ Ascii.newline :: taken) :
      newlines front + newlines separator = newlines a + 1 + newlines taken := by
    rw [← newlines_append, h_text, List.append_cons, newlines_append, newlines_append]
    rfl
  cases h_b with
  | mark h_mark => cases h_mark <;> exact absurd rfl h_head
  | @lexical taken separator broken rest more cause h_start h_viable h_separator h_fault =>
    obtain ⟨tokens, front, ended, h_body, h_ended, h_front, h_text, -⟩ :=
      h_a.exists_start h_start h_head
    have h_count := h_lines h_text
    -- What separates the document from the text is one separator with what is in the text.
    rw [← List.append_assoc, ← List.append_assoc] at h_front
    have h_first := FirstFault.lexical h_front (h_body.viable_append.mpr h_viable)
      (h_ended.append h_separator) h_fault
    have h_line : 1 + newlines (front ++ (ended ++ separator) ++ broken) =
        1 + newlines (taken ++ separator ++ broken) + 1 + newlines a := by
      simp only [newlines_append]
      omega
    rw [← List.cons_append, ← List.append_assoc, ← h_text, ← h_line]
    simpa using h_first
  | @token taken rest more token wanted h_start h_viable h_not h_wants =>
    obtain ⟨tokens, front, ended, h_body, -, h_front, h_text, h_nil⟩ :=
      h_a.exists_start h_start h_head
    -- The token is a first one, so what ends the document has been read before it.
    obtain rfl := h_nil (by simp)
    have h_count := h_lines h_text
    rw [List.append_nil] at h_text
    rw [List.nil_append, ← List.append_assoc] at h_front
    have h_first := FirstFault.token h_front (h_body.viable_append.mpr h_viable)
      (by rwa [List.append_assoc, h_body.viable_append]) (h_body.wants_append h_wants)
    have h_line : 1 + newlines front = 1 + newlines taken + 1 + newlines a := by
      simp only [newlines_nil] at h_count
      omega
    rw [← List.cons_append, ← List.append_assoc, ← h_text, ← h_line]
    exact h_first
  | @ended taken rest more wanted h_start h_trailer h_viable h_not h_wants =>
    obtain ⟨tokens, front, ended, h_body, h_ended, h_front, h_text, -⟩ :=
      h_a.exists_start h_start h_head
    have h_count := h_lines h_text
    -- If the tokens were a body, those behind the document's would be one.
    have h_none (whole : Tree) : ¬Body (tokens ++ more) whole := by
      intro h_whole
      obtain ⟨u, h_u⟩ := h_body.of_append h_whole
      exact h_not u h_u
    have h_first := FirstFault.ended h_front (h_trailer.prepend h_ended)
      (h_body.viable_append.mpr h_viable) h_none (h_body.wants_append h_wants)
    have h_line : 1 + newlines (front ++ (ended ++ rest)) =
        1 + newlines (taken ++ rest) + 1 + newlines a := by
      simp only [newlines_append]
      omega
    rw [← List.cons_append, ← List.append_assoc, ← h_text, List.append_assoc, ← h_line]
    exact h_first

/-- Between the braces of an object, a document is what the object holds. -/
theorem Document.inside {name : Bytes} (h : Document comments text t)
    (h_head : text.head? ≠ some 0xef) (h_name : 0 ∉ name) :
    Document comments
      (written name ++ [Ascii.space, Ascii.openBrace, Ascii.newline] ++ text ++
        [Ascii.newline, Ascii.closeBrace])
      (.object name t .empty) := by
  obtain ⟨front, taken, separator, tokens, h_text, h_separator, h_body, h_front, h_behind⟩ :=
    h.split
  obtain rfl := h_front h_head
  -- Put together from its end: the brace, the document, and the line in front of it.
  have h_end : Reading comments [] [] none := .trailer (.separator .nil)
  have h_close := (h_end.mark .closeBrace (by decide)).separator h_separator
  have h_inside := h_close.behind (h_behind [Ascii.closeBrace]).2
  have h_open := h_inside.newline.mark .openBrace (by decide)
  have h_read := h_open.space.written h_name (by simp; rfl)
  rw [← List.append_assoc taken, ← List.nil_append (taken ++ separator), ← h_text] at h_read
  have h_object : Body (.text name :: .openBrace :: tokens ++ [.closeBrace])
      (.object name t .empty) := .object h_body .empty
  simp only [List.append_assoc, List.cons_append, List.nil_append] at h_read h_object ⊢
  exact h_read.document (head_written_append name _) h_object

end Grammar

namespace Fields

/-! ## Text that is written -/

theorem document_append (f g : Fields) (options : WriterOptions) :
    (f ++ g).document options = f.document options ++ g.document options := by
  have h_level : (Tree.ofFields f).events.foldl Event.levelAfter 0 = 0 :=
    Event.foldl_levelAfter ((Tree.ofFields f).depthAfter_events 0)
  simp only [document_eq, Tree.ofFields_append, Tree.events_append, rendered_append, h_level]

theorem dump_append (f g : Fields) : (f ++ g).dump = f.dump ++ g.dump := by
  have h_bytes : Utf8.encode (f ++ g).dump = Utf8.encode (f.dump ++ g.dump) := by
    rw [Utf8.encode_append, encode_dump, encode_dump, encode_dump, document_append]
  rw [← Utf8.decode_encode (f ++ g).dump, h_bytes, Utf8.decode_encode]

/-- A document, a newline and a text that does not begin like a byte-order mark are loaded as
the two behind each other, or fail as the text does, only that its error is found so many
lines later.  A document that does not begin so is loaded inside an object as it is.  The
dumps of two trees behind each other are the dump of both. -/
theorem ofBytes_compose (options : ReaderOptions) :
    (∀ a f, ofBytes a options = .ok f →
      (∀ b, b.head? ≠ some 0xef →
        (∀ g, ofBytes b options = .ok g →
          ofBytes (a ++ [Ascii.newline] ++ b) options = .ok (f ++ g)) ∧
        ∀ e, ofBytes b options = .error e → ∃ line cause, e = .malformed line cause ∧
          ofBytes (a ++ [Ascii.newline] ++ b) options =
            .error (.malformed (line + 1 + newlines a) cause)) ∧
      (a.head? ≠ some 0xef → ∀ name : String, Char.ofNat 0 ∉ name.toList →
        ofBytes (written (Utf8.encode name) ++ [Ascii.space, Ascii.openBrace, Ascii.newline] ++ a ++
          [Ascii.newline, Ascii.closeBrace]) options = .ok [(name, .object f)])) ∧
      ∀ f g : Fields, (f ++ g).dump = f.dump ++ g.dump := by
  refine ⟨fun a f h_a => ?_, dump_append⟩
  obtain ⟨t, h_t, rfl⟩ := exists_document h_a
  refine ⟨fun b h_head => ⟨?_, ?_⟩, ?_⟩
  · intro g h_b
    obtain ⟨u, h_u, rfl⟩ := exists_document h_b
    rw [List.append_assoc, List.singleton_append, ← Tree.decoded_append]
    exact ofBytes_of_document (h_t.append h_u h_head)
  · intro e h_b
    obtain ⟨line, cause, h_fault, rfl⟩ := exists_firstFault h_b
    rw [List.append_assoc, List.singleton_append]
    exact ⟨line, cause, rfl, ofBytes_of_firstFault (h_fault.behind h_t h_head)⟩
  · intro h_head name h_name
    have h_zero : 0 ∉ Utf8.encode name := by
      rwa [Utf8.mem_encode (by decide)]
    rw [ofBytes_of_document (h_t.inside h_head h_zero)]
    simp only [Tree.decoded, Utf8.decode_encode]

/-- A document that ends within a comment, in front of a document and of a text that fails, and
inside an object with a quoted name. -/
theorem ofBytes_compose_open_comment :
    let options : ReaderOptions := { comments := true }
    let a := Utf8.encode "x: 1\no \x7b \x7d // two"
    ofBytes (a ++ [Ascii.newline] ++ Utf8.encode "x: y") options =
        .ok [("x", .text "1"), ("o", .object []), ("x", .text "y")] ∧
      ofBytes (a ++ [Ascii.newline] ++ Utf8.encode "\nx \x7d") options =
        .error (.malformed 4 .contentExpected) ∧
      ofBytes (Utf8.encode "\"a b\"" ++ [Ascii.space, Ascii.openBrace, Ascii.newline] ++ a ++
        [Ascii.newline, Ascii.closeBrace]) options =
          .ok [("a b", .object [("x", .text "1"), ("o", .object [])])] := by
  intro options a
  have h_a : ofBytes a options = .ok [("x", .text "1"), ("o", .object [])] := by decide +kernel
  have h_text : ofBytes (Utf8.encode "x: y") options = .ok [("x", .text "y")] := by decide +kernel
  have h_fault : ofBytes (Utf8.encode "\nx \x7d") options =
      .error (.malformed 2 .contentExpected) := by decide +kernel
  obtain ⟨h_behind, h_inside⟩ := (ofBytes_compose options).1 a _ h_a
  refine ⟨(h_behind _ (by decide +kernel)).1 _ h_text, ?_, ?_⟩
  · obtain ⟨line, cause, h_error, h_shifted⟩ := (h_behind _ (by decide +kernel)).2 _ h_fault
    obtain ⟨rfl, rfl⟩ := Error.malformed.inj h_error
    exact h_shifted
  · have h_name : Utf8.encode "\"a b\"" = written (Utf8.encode "a b") := by decide +kernel
    rw [h_name]
    exact h_inside (by decide +kernel) "a b" (by decide +kernel)

end Fields
end PropertyText
