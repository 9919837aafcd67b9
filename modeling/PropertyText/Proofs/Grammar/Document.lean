/-
  PropertyText.Proofs.Grammar.Document

  The grammar of documents over tokens, and the tree that a document denotes
  (`Document`).  A text that is no document has a first place at which it cannot be
  continued to one; `FirstFault` tells that place by its line, and what is wrong there.
  Every text is one or the other (`document_or_firstFault`).
-/
import PropertyText.Proofs.Grammar.Lexeme
import PropertyText.Proofs.Tree

namespace PropertyText

/-- The tokens of an event. -/
def Event.tokens : Event Bytes → List Token
  | .field name value => [.text name, .colon, .text value]
  | .opened name => [.text name, .openBrace]
  | .closed => [.closeBrace]

namespace Grammar

/-! ## Documents -/

/-- The tokens of the properties of an object, with the tree that they denote. -/
inductive Body : List Token → Tree → Prop
  | empty : Body [] .empty
  | field {name value : Bytes} {tokens : List Token} {rest : Tree} :
      Body tokens rest → Body (.text name :: .colon :: .text value :: tokens) (.field name value rest)
  | object {name : Bytes} {inside tokens : List Token} {inner rest : Tree} :
      Body inside inner → Body tokens rest →
      Body (.text name :: .openBrace :: inside ++ .closeBrace :: tokens) (.object name inner rest)

/-- The tokens with which a document starts, with the text that they take up and the text
behind them. -/
inductive Start (comments : Bool) : Bytes → List Token → Bytes → Prop
  | intro {front text rest : Bytes} {tokens : List Token} :
      Opening front (text ++ rest) → Tokens comments text tokens rest →
      Start comments (front ++ text) tokens rest

/-- A document, with the tree that it denotes. -/
inductive Document (comments : Bool) : Bytes → Tree → Prop
  | intro {taken rest : Bytes} {tokens : List Token} {t : Tree} :
      Start comments taken tokens rest → Trailer comments rest → Body tokens t →
      Document comments (taken ++ rest) t

/-! ## Faults -/

/-- Tokens that can be continued to those of a document. -/
def Viable (tokens : List Token) : Prop := ∃ rest t, Body (tokens ++ rest) t

/-- What has to follow: the name of a property or the end of an object, what the property
holds, or its text. -/
inductive Wanted where
  | name
  | content
  | value
  deriving DecidableEq, Repr

/-- The beginning of a property, up to what has to follow. -/
inductive Part : List Token → Wanted → Prop
  | nil : Part [] .name
  | name (name : Bytes) : Part [.text name] .content
  | colon (name : Bytes) : Part [.text name, .colon] .value

/-- What has to follow some tokens, which are whole events up to the beginning of a
property. -/
inductive Wants : List Token → Wanted → Prop
  | intro {events : List (Event Bytes)} {part : List Token} {wanted : Wanted} :
      Part part wanted → Wants (events.flatMap Event.tokens ++ part) wanted

/-- Why a token, or the end of the text, cannot stand where something else has to follow. -/
def Wanted.refuses : Wanted → Token → Malformation
  -- An object may end where a name is wanted, so a brace that may not is one too many.
  | .name, .closeBrace => .strayClose
  | .name, .ended => .unexpectedEnd
  | .name, _ => .nameExpected
  | .content, _ => .contentExpected
  | .value, _ => .valueExpected

/-- The first place at which a text cannot be continued to a document, by its line, and what
is wrong there. -/
inductive FirstFault (comments : Bool) : Bytes → Nat → Malformation → Prop
  | mark {broken rest : Bytes} :
      BrokenMark broken rest →
      FirstFault comments (broken ++ rest) (1 + newlines broken) .brokenMark
  | lexical {taken separator broken rest : Bytes} {tokens : List Token} {cause : Malformation} :
      Start comments taken tokens (separator ++ broken ++ rest) → Viable tokens →
      Separator comments separator → Fault comments broken rest cause →
      FirstFault comments (taken ++ (separator ++ broken ++ rest))
        (1 + newlines (taken ++ separator ++ broken)) cause
  | token {taken rest : Bytes} {tokens : List Token} {token : Token} {wanted : Wanted} :
      Start comments taken (tokens ++ [token]) rest → Viable tokens →
      ¬Viable (tokens ++ [token]) → Wants tokens wanted →
      FirstFault comments (taken ++ rest) (1 + newlines taken) (wanted.refuses token)
  | ended {taken rest : Bytes} {tokens : List Token} {wanted : Wanted} :
      Start comments taken tokens rest → Trailer comments rest → Viable tokens →
      (∀ t, ¬Body tokens t) → Wants tokens wanted →
      FirstFault comments (taken ++ rest) (1 + newlines (taken ++ rest))
        (wanted.refuses .ended)

/-! ## Bodies as sequences of events -/

theorem body_events (t : Tree) : Body (t.events.flatMap Event.tokens) t := by
  induction t with
  | empty => exact .empty
  | field name value rest ih => exact .field ih
  | object name inner rest ih_inner ih_rest =>
    have h_body : Body _ (.object name inner rest) := .object ih_inner ih_rest
    simpa [Tree.events, Event.tokens] using h_body

/-- The tokens of a body are those of the events of its tree. -/
theorem body_iff {tokens : List Token} {t : Tree} :
    Body tokens t ↔ tokens = t.events.flatMap Event.tokens := by
  constructor
  · intro h
    induction h with
    | empty => rfl
    | field _ ih => rw [ih]; rfl
    | object _ _ ih_inner ih_rest =>
      rw [ih_inner, ih_rest]
      simp [Tree.events, Event.tokens]
  · rintro rfl
    exact body_events t

/-- No event's tokens begin those of another. -/
theorem tokens_append_inj {e f : Event Bytes} {a b : List Token}
    (h : e.tokens ++ a = f.tokens ++ b) : e = f ∧ a = b := by
  cases e <;> cases f <;> simp_all [Event.tokens]

theorem tokens_ne_nil (e : Event Bytes) : e.tokens ≠ [] := by
  cases e <;> exact List.cons_ne_nil _ _

/-- Tokens that begin with those of some events are those of events that begin so. -/
theorem exists_events_append {events whole : List (Event Bytes)} {rest : List Token}
    (h : events.flatMap Event.tokens ++ rest = whole.flatMap Event.tokens) :
    ∃ more, whole = events ++ more ∧ rest = more.flatMap Event.tokens := by
  induction events generalizing whole with
  | nil => exact ⟨whole, rfl, h⟩
  | cons e events ih =>
    cases whole with
    | nil => simp [tokens_ne_nil] at h
    | cons f whole =>
      rw [List.flatMap_cons, List.flatMap_cons, List.append_assoc] at h
      obtain ⟨rfl, h_rest⟩ := tokens_append_inj h
      obtain ⟨more, rfl, h_more⟩ := ih h_rest
      exact ⟨more, rfl, h_more⟩

/-- A front part of the tokens of an event is a part of a property, or all of them. -/
theorem part_cases {e : Event Bytes} {front back rest : List Token}
    (h : front ++ back = e.tokens ++ rest) :
    (∃ wanted, Part front wanted) ∨ ∃ more, front = e.tokens ++ more ∧ more ++ back = rest := by
  cases e with
  | field name value =>
    match front with
    | [] => exact Or.inl ⟨_, .nil⟩
    | [_] =>
      obtain ⟨rfl, -⟩ := List.cons.inj h
      exact Or.inl ⟨_, .name name⟩
    | [_, _] =>
      simp only [Event.tokens, List.cons_append, List.cons.injEq] at h
      obtain ⟨rfl, rfl, -⟩ := h
      exact Or.inl ⟨_, .colon name⟩
    | _ :: _ :: _ :: more =>
      simp only [Event.tokens, List.cons_append, List.cons.injEq] at h
      obtain ⟨rfl, rfl, rfl, h_more⟩ := h
      exact Or.inr ⟨more, rfl, h_more⟩
  | opened name =>
    match front with
    | [] => exact Or.inl ⟨_, .nil⟩
    | [_] =>
      obtain ⟨rfl, -⟩ := List.cons.inj h
      exact Or.inl ⟨_, .name name⟩
    | _ :: _ :: more =>
      simp only [Event.tokens, List.cons_append, List.cons.injEq] at h
      obtain ⟨rfl, rfl, h_more⟩ := h
      exact Or.inr ⟨more, rfl, h_more⟩
  | closed =>
    match front with
    | [] => exact Or.inl ⟨_, .nil⟩
    | _ :: more =>
      obtain ⟨rfl, h_more⟩ := List.cons.inj h
      exact Or.inr ⟨more, rfl, h_more⟩

theorem Wants.of_part {part : List Token} {wanted : Wanted} (h : Part part wanted) :
    Wants part wanted := by
  show Wants (([] : List (Event Bytes)).flatMap Event.tokens ++ part) wanted
  exact .intro h

theorem Wants.cons {tokens : List Token} {wanted : Wanted} (h : Wants tokens wanted)
    (e : Event Bytes) : Wants (e.tokens ++ tokens) wanted := by
  cases h with
  | @intro events part wanted h_part =>
    rw [← List.append_assoc]
    show Wants ((e :: events).flatMap Event.tokens ++ part) wanted
    exact .intro h_part

/-- Tokens that begin a sequence of events are whole events and the beginning of a property. -/
theorem exists_wants {tokens rest : List Token} {events : List (Event Bytes)}
    (h : tokens ++ rest = events.flatMap Event.tokens) : ∃ wanted, Wants tokens wanted := by
  induction events generalizing tokens with
  | nil =>
    obtain ⟨rfl, -⟩ := List.append_eq_nil_iff.mp h
    exact ⟨.name, .of_part .nil⟩
  | cons e events ih =>
    rcases part_cases h with ⟨wanted, h_part⟩ | ⟨more, rfl, h_more⟩
    · exact ⟨wanted, .of_part h_part⟩
    · obtain ⟨wanted, h_wants⟩ := ih h_more
      exact ⟨wanted, h_wants.cons e⟩

/-! ## Tokens that can be continued -/

theorem viable_nil : Viable [] := ⟨[], .empty, .empty⟩

theorem Viable.of_append {a b : List Token} (h : Viable (a ++ b)) : Viable a := by
  obtain ⟨rest, t, h_body⟩ := h
  exact ⟨b ++ rest, t, by rwa [← List.append_assoc]⟩

theorem Viable.exists_wants {tokens : List Token} (h : Viable tokens) :
    ∃ wanted, Wants tokens wanted := by
  obtain ⟨rest, t, h_body⟩ := h
  exact Grammar.exists_wants (body_iff.mp h_body)

/-- Events can be continued if no object is closed that is not open: the open ones can
always be closed. -/
theorem viable_of_depth {events : List (Event Bytes)} {depth : Nat}
    (h : Event.depthAfter 0 events = some depth) : Viable (events.flatMap Event.tokens) := by
  -- With the ends of the open objects the events are those of a tree.
  have h_closed : Event.depthAfter 0 (events ++ List.replicate depth .closed) = some 0 := by
    rw [Event.depthAfter_append, h, Option.bind_some, Event.depthAfter_replicate_closed]
  obtain ⟨t, h_events⟩ := (Tree.exists_events_iff _).mpr h_closed
  refine ⟨(List.replicate depth .closed).flatMap Event.tokens, t, ?_⟩
  rw [body_iff, h_events, List.flatMap_append]

theorem Viable.exists_depth {events : List (Event Bytes)} {part : List Token}
    (h : Viable (events.flatMap Event.tokens ++ part)) :
    ∃ depth, Event.depthAfter 0 events = some depth := by
  obtain ⟨rest, t, h_body⟩ := h
  rw [body_iff, List.append_assoc] at h_body
  obtain ⟨more, h_events, -⟩ := exists_events_append h_body
  have h_depth := t.depthAfter_events 0
  rw [h_events] at h_depth
  exact Event.exists_depthAfter_of_append h_depth

/-- The beginning of a property can be continued by what completes it. -/
theorem viable_of_event {events : List (Event Bytes)} {part more : List Token} {depth : Nat}
    {e : Event Bytes} (h : Event.depthAfter 0 (events ++ [e]) = some depth)
    (h_tokens : part ++ more = e.tokens) : Viable (events.flatMap Event.tokens ++ part) := by
  have h_viable := viable_of_depth h
  rw [List.flatMap_append, List.flatMap_singleton, ← h_tokens, ← List.append_assoc] at h_viable
  exact h_viable.of_append

/-- Whether a token, or the end of the text, is none of those that may follow, at the top of a
document or within an object. -/
def Wanted.Bars (atTop : Bool) : Wanted → Token → Prop
  | .name, .text _ => False
  | .name, .closeBrace => atTop = true
  | .name, .ended => atTop = false
  | .name, _ => True
  | .content, .colon | .content, .openBrace => False
  | .content, _ => True
  | .value, .text _ => False
  | .value, _ => True

/-- A token with which the tokens cannot be continued is none of those that may follow. -/
theorem bars_of_not_viable {events : List (Event Bytes)} {part : List Token} {wanted : Wanted}
    {depth : Nat} {token : Token} (h_part : Part part wanted)
    (h_depth : Event.depthAfter 0 events = some depth) (h_token : token ≠ .ended)
    (h : ¬Viable (events.flatMap Event.tokens ++ part ++ [token])) :
    wanted.Bars (depth == 0) token := by
  -- No event that may come next begins with the part and the token.
  have h_event (e : Event Bytes) (more : List Token) {depth' : Nat}
      (h_e : Event.depthAfter depth [e] = some depth') :
      part ++ [token] ++ more ≠ e.tokens := by
    intro h_tokens
    have h_depth' : Event.depthAfter 0 (events ++ [e]) = some depth' := by
      rw [Event.depthAfter_append, h_depth, Option.bind_some, h_e]
    rw [List.append_assoc] at h
    exact h (viable_of_event h_depth' h_tokens)
  cases h_part with
  | nil =>
    cases token with
    | text name => exact absurd rfl (h_event (.field name []) [.colon, .text []] rfl)
    | closeBrace =>
      cases depth with
      | zero => rfl
      | succ depth => exact absurd rfl (h_event .closed [] rfl)
    | ended => exact absurd rfl h_token
    | colon | openBrace => trivial
  | name name =>
    cases token with
    | colon => exact absurd rfl (h_event (.field name []) [.text []] rfl)
    | openBrace => exact absurd rfl (h_event (.opened name) [] rfl)
    | text _ | closeBrace | ended => trivial
  | colon name =>
    cases token with
    | text value => exact absurd rfl (h_event (.field name value) [] rfl)
    | colon | openBrace | closeBrace | ended => trivial

/-- The text may not end where the tokens are no body. -/
theorem bars_ended {events : List (Event Bytes)} {part : List Token} {wanted : Wanted}
    {depth : Nat} (h_part : Part part wanted) (h_depth : Event.depthAfter 0 events = some depth)
    (h : ∀ t, ¬Body (events.flatMap Event.tokens ++ part) t) :
    wanted.Bars (depth == 0) .ended := by
  cases h_part with
  | nil =>
    cases depth with
    | zero =>
      obtain ⟨t, rfl⟩ := (Tree.exists_events_iff events).mpr h_depth
      exact absurd (body_events t) (by simpa using h t)
    | succ depth => rfl
  | name name => trivial
  | colon name => trivial

/-- Some token is the first one with which the tokens cannot be continued, if there is any. -/
theorem viable_or_exists_first (front back : List Token) (h : Viable front) :
    Viable (front ++ back) ∨ ∃ middle token rest, back = middle ++ token :: rest ∧
      Viable (front ++ middle) ∧ ¬Viable (front ++ middle ++ [token]) := by
  induction back generalizing front with
  | nil => exact Or.inl (by rwa [List.append_nil])
  | cons token back ih =>
    by_cases h_token : Viable (front ++ [token])
    · rcases ih _ h_token with h_viable | ⟨middle, token', rest, rfl, h_viable, h_not⟩
      · exact Or.inl (by simpa using h_viable)
      · exact Or.inr ⟨token :: middle, token', rest, rfl, by simpa using h_viable,
          by simpa using h_not⟩
    · exact Or.inr ⟨[], token, back, rfl, by rwa [List.append_nil], by rwa [List.append_nil]⟩

/-! ## Documents and faults -/

/-- Every text is a document or has a first fault. -/
theorem document_or_firstFault (comments : Bool) (whole : Bytes) :
    (∃ t, Document comments whole t) ∨ ∃ line cause, FirstFault comments whole line cause := by
  rcases exists_opening whole with ⟨front, text, rfl, h_front⟩ | ⟨broken, rest, rfl, h_mark⟩
  · obtain ⟨text, tokens, rest, rfl, h_tokens, h_rest⟩ := exists_tokens comments text
    rw [← List.append_assoc]
    rcases viable_or_exists_first [] tokens viable_nil with
      h_viable | ⟨tokens, token, more, rfl, h_viable, h_not⟩
    -- All tokens can be continued: what stands behind them decides.
    · obtain ⟨wanted, h_wants⟩ := h_viable.exists_wants
      rcases h_rest with h_trailer | ⟨separator, broken, behind, cause, rfl, h_separator, h_fault⟩
      · by_cases h_body : ∃ t, Body tokens t
        · obtain ⟨t, h_body⟩ := h_body
          exact Or.inl ⟨t, .intro (.intro h_front h_tokens) h_trailer h_body⟩
        · exact Or.inr ⟨_, _, .ended (.intro h_front h_tokens) h_trailer h_viable
            (not_exists.mp h_body) h_wants⟩
      · exact Or.inr ⟨_, _, .lexical (.intro h_front h_tokens) h_viable h_separator h_fault⟩
    -- The text up to the first token that does not fit is looked at, and no further.
    · obtain ⟨wanted, h_wants⟩ := h_viable.exists_wants
      rw [List.append_cons] at h_tokens
      obtain ⟨taken, text, rfl, h_taken, -⟩ := Tokens.exists_append h_tokens
      rw [List.append_assoc] at h_front
      have h_fault := FirstFault.token (.intro h_front h_taken) h_viable h_not h_wants
      exact Or.inr ⟨_, _, by simpa using h_fault⟩
  · exact Or.inr ⟨_, _, .mark h_mark⟩

end Grammar
end PropertyText
