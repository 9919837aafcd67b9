/-
  PropertyText.Proofs.Grammar.Reading

  How a text reads, put together from its front: separators and tokens may be put before a
  text of which the reading is known.  A text that reads as a body up to its end is a
  document (`Reading.document`), and one with a fault behind tokens that can be continued has
  its first fault there (`Reading.firstFault`).
-/
import PropertyText.Proofs.Grammar.Document

namespace PropertyText
namespace Grammar

/-- How reading ends: at the end of the text, or at a fault behind a number of line ends. -/
abbrev Outcome := Option (Nat × Malformation)

namespace Outcome

/-- The outcome when a number of line ends is put before the text. -/
def behind (lines : Nat) : Outcome → Outcome :=
  Option.map fun (more, cause) => (lines + more, cause)

@[simp] theorem behind_zero (outcome : Outcome) : outcome.behind 0 = outcome := by
  cases outcome <;> simp [behind]

theorem behind_behind (a b : Nat) (outcome : Outcome) :
    (outcome.behind b).behind a = outcome.behind (a + b) := by
  cases outcome <;> simp [behind, Nat.add_assoc]

end Outcome

/-- The tokens of a text up to the outcome. -/
inductive Reading (comments : Bool) : Bytes → List Token → Outcome → Prop
  | trailer {text : Bytes} : Trailer comments text → Reading comments text [] none
  | fault {broken rest : Bytes} {cause : Malformation} :
      Fault comments broken rest cause →
      Reading comments (broken ++ rest) [] (some (newlines broken, cause))
  | separator {separator text : Bytes} {tokens : List Token} {outcome : Outcome} :
      Separator comments separator → Reading comments text tokens outcome →
      Reading comments (separator ++ text) tokens (outcome.behind (newlines separator))
  | token {raw text : Bytes} {token : Token} {tokens : List Token} {outcome : Outcome} :
      Lexeme token raw → Maximal raw text → Reading comments text tokens outcome →
      Reading comments (raw ++ text) (token :: tokens) (outcome.behind (newlines raw))

variable {comments : Bool} {text : Bytes} {tokens : List Token}

theorem Separator.append {a b : Bytes} (h_a : Separator comments a) (h_b : Separator comments b) :
    Separator comments (a ++ b) := by
  induction h_a with
  | nil => exact h_b
  | blank h_blank _ ih => exact .blank h_blank ih
  | comment h_comments h_words _ ih =>
    rw [List.append_assoc, List.cons_append]
    exact .comment h_comments h_words ih

theorem Trailer.prepend {a b : Bytes} (h_a : Separator comments a) (h_b : Trailer comments b) :
    Trailer comments (a ++ b) := by
  cases h_b with
  | separator h => exact .separator (h_a.append h)
  | comment h_comments h h_words =>
    rw [← List.append_assoc]
    exact .comment h_comments (h_a.append h) h_words

theorem Tokens.prepend {a taken rest : Bytes} {token : Token} (h_a : Separator comments a)
    (h : Tokens comments taken (token :: tokens) rest) :
    Tokens comments (a ++ taken) (token :: tokens) rest := by
  cases h with
  | cons h_separator h_lexeme h_maximal h_tokens =>
    rw [← List.append_assoc, ← List.append_assoc]
    exact .cons (h_a.append h_separator) h_lexeme h_maximal h_tokens

/-- What stands behind the tokens that were read. -/
def Outcome.Ends (comments : Bool) (rest : Bytes) : Outcome → Prop
  | none => Trailer comments rest
  | some (lines, cause) => ∃ separator broken behind, rest = separator ++ broken ++ behind ∧
      Separator comments separator ∧ Fault comments broken behind cause ∧
      newlines (separator ++ broken) = lines

theorem Outcome.Ends.prepend {a rest : Bytes} {outcome : Outcome} (h_a : Separator comments a)
    (h : outcome.Ends comments rest) :
    (outcome.behind (newlines a)).Ends comments (a ++ rest) := by
  cases outcome with
  | none => exact Trailer.prepend h_a h
  | some fault =>
    obtain ⟨separator, broken, behind, rfl, h_separator, h_fault, h_lines⟩ := h
    refine ⟨a ++ separator, broken, behind, by simp, h_a.append h_separator, h_fault, ?_⟩
    rw [List.append_assoc, newlines_append, h_lines]

/-- The tokens stand in front, and the outcome is found behind them. -/
theorem Reading.exists_tokens {outcome : Outcome} (h : Reading comments text tokens outcome) :
    ∃ taken rest inner, text = taken ++ rest ∧ Tokens comments taken tokens rest ∧
      outcome = Outcome.behind (newlines taken) inner ∧ inner.Ends comments rest := by
  induction h with
  | @trailer text h_trailer => exact ⟨[], text, none, rfl, .nil, rfl, h_trailer⟩
  | @fault broken rest cause h_fault =>
    exact ⟨[], _, some (newlines broken, cause), rfl, .nil, by simp, [], broken, rest, rfl, .nil,
      h_fault, rfl⟩
  | @separator separator text tokens outcome h_separator _ ih =>
    obtain ⟨taken, rest, inner, rfl, h_tokens, rfl, h_ends⟩ := ih
    -- The separator goes to the first token, or to what ends the reading if there is none.
    cases h_tokens with
    | nil =>
      exact ⟨[], separator ++ rest, _, rfl, .nil, by simp, h_ends.prepend h_separator⟩
    | cons h_first h_lexeme h_maximal h_rest =>
      refine ⟨separator ++ _, rest, inner, by simp, .prepend h_separator
        (.cons h_first h_lexeme h_maximal h_rest), ?_, h_ends⟩
      simp only [newlines_append, Outcome.behind_behind]
  | @token raw text token tokens outcome h_lexeme h_maximal _ ih =>
    obtain ⟨taken, rest, inner, rfl, h_tokens, rfl, h_ends⟩ := ih
    refine ⟨[] ++ raw ++ taken, rest, inner, by simp, .cons .nil h_lexeme h_maximal h_tokens, ?_,
      h_ends⟩
    rw [List.nil_append, newlines_append, Outcome.behind_behind]

/-- A text that does not begin like a byte-order mark and reads as a body is a document. -/
theorem Reading.document {t : Tree} (h : Reading comments text tokens none)
    (h_head : text.head? ≠ some 0xef) (h_body : Body tokens t) : Document comments text t := by
  obtain ⟨taken, rest, inner, rfl, h_tokens, h_none, h_ends⟩ := h.exists_tokens
  cases inner with
  | none => exact .intro (.intro (.none h_head) h_tokens) h_ends h_body
  | some fault => cases h_none

/-- A fault behind tokens that can be continued is the first one. -/
theorem Reading.firstFault {lines : Nat} {cause : Malformation}
    (h : Reading comments text tokens (some (lines, cause)))
    (h_head : text.head? ≠ some 0xef) (h_viable : Viable tokens) :
    FirstFault comments text (1 + lines) cause := by
  obtain ⟨taken, rest, inner, rfl, h_tokens, h_some, h_ends⟩ := h.exists_tokens
  cases inner with
  | none => cases h_some
  | some fault =>
    -- The line ends of the tokens are counted before those of the fault.
    obtain ⟨inner_lines, inner_cause⟩ := fault
    simp only [Outcome.behind, Option.map_some, Option.some.injEq, Prod.mk.injEq] at h_some
    obtain ⟨rfl, rfl⟩ := h_some
    obtain ⟨separator, broken, behind, rfl, h_separator, h_fault, rfl⟩ := h_ends
    rw [← newlines_append, ← List.append_assoc taken separator broken]
    exact .lexical (.intro (.none h_head) h_tokens) h_viable h_separator h_fault

end Grammar
end PropertyText
