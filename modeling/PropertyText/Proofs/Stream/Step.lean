/-
  PropertyText.Proofs.Stream.Step

  Everything that one step in the innermost object can do to a stream (`Stream.Step`), and
  the document as the sequence of such steps.  Whichever objects a caller asks, and in
  whichever order, a stream goes through the same events; a caller who goes on in an outer
  object merely does not see some of them.
-/
import PropertyText.Proofs.Stream.View

namespace PropertyText
namespace Stream

variable {ι : Type}

/-! ## One step -/

/-- The stream when a token has been read up to a place in the input. -/
def behind (s : Stream ι) (input : ι) : Stream ι := { s with input, fresh := false }

/-- The stream with an error that was found in the text up to a place in the input. -/
def failedAt (s : Stream ι) (input : ι) (e : Error) : Stream ι :=
  { s with input, fresh := false, error := some e }

@[simp] theorem behind_behind (s : Stream ι) (i j : ι) : (s.behind i).behind j = s.behind j := rfl

@[simp] theorem failedAt_behind (s : Stream ι) (i j : ι) (e : Error) :
    (s.behind i).failedAt j e = s.failedAt j e := rfl

@[simp] theorem error_behind (s : Stream ι) (i : ι) : (s.behind i).error = s.error := rfl
@[simp] theorem path_behind (s : Stream ι) (i : ι) : (s.behind i).path = s.path := rfl
@[simp] theorem atTop_behind (s : Stream ι) (i : ι) : (s.behind i).atTop = s.atTop := rfl

/-- What reading on in the innermost object can do, with the property that is handed out and
the event of the document that this is. -/
inductive Step (s : Stream ι) : Option Property → Option (Event Bytes) → Stream ι → Prop
  | text (name value : Bytes) (input : ι) :
      Step s (some ⟨name, .text value⟩) (some (.field name value)) (s.behind input)
  | opened (name : Bytes) (input : ι) :
      Step s (some ⟨name, .object s.nextId⟩) (some (.opened name)) (s.behind input).openObject.2
  | closed (input : ι) : s.atTop = false → Step s none (some .closed) (s.behind input).close
  | finished (input : ι) : s.atTop = true →
      Step s none none { s.behind input with finished := true }
  | failed (input : ι) (e : Error) : Step s none none (s.failedAt input e)

/-- Neither at an error nor at the end of the document. -/
def Running (s : Stream ι) : Prop := s.error = none ∧ s.finished = false

instance (s : Stream ι) : Decidable s.Running := by
  unfold Running
  infer_instance

/-- A request for a property that is not turned down is made of a running stream. -/
theorem running_of_guard {s : Stream ι} {object : ObjectId}
    (h : ¬(s.error.isSome || s.finished || !s.path.contains object) = true) : s.Running := by
  simp only [Bool.or_eq_true, not_or, Bool.not_eq_true, Option.isSome_eq_false_iff,
    Option.isNone_iff_eq_none] at h
  exact h.1

variable [Input ι]

theorem refuse_of_none {s : Stream ι} (h : s.error = none) (cause : Malformation) :
    s.refuse cause = { s with error := some (.malformed s.line cause) } := by
  simp [refuse, record, h]

/-- Behind the first error nothing is recorded any more. -/
theorem refuse_of_some {s : Stream ι} (h : s.error ≠ none) (cause : Malformation) :
    s.refuse cause = s := by
  obtain ⟨e, h_error⟩ := Option.ne_none_iff_exists'.mp h
  rw [refuse, record, h_error, Option.some_or, ← h_error]

/-- A token is taken as the machine reads it. -/
theorem takeToken_of_none {s : Stream ι} (h : s.error = none) :
    s.takeToken =
      match Token.scan s.comments s.mode s.input with
      | (.ok token, input) => (some token, s.behind input)
      | (.error fault, input) => (none, s.failedAt input (fault.onLine (Input.line input))) := by
  rw [takeToken, h]
  dsimp only
  rcases Token.scan s.comments s.mode s.input with ⟨fault | token, input⟩
  · simp [failedAt, record, line]
  · simp [behind, h]

theorem takeToken_scan {s : Stream ι} (h : s.error = none) :
    (∃ token input, s.takeToken = (some token, s.behind input) ∧
        Token.scan s.comments s.mode s.input = (.ok token, input)) ∨
      ∃ input e, s.takeToken = (none, s.failedAt input e) ∧
        (Token.scan s.comments s.mode s.input).2 = input := by
  rw [takeToken_of_none h]
  rcases Token.scan s.comments s.mode s.input with ⟨fault | token, input⟩
  · exact Or.inr ⟨input, _, rfl, rfl⟩
  · exact Or.inl ⟨token, input, rfl, rfl⟩

theorem takeToken_cases {s : Stream ι} (h : s.error = none) :
    (∃ token input, s.takeToken = (some token, s.behind input)) ∨
      ∃ input e, s.takeToken = (none, s.failedAt input e) := by
  rcases takeToken_scan h with ⟨token, input, h_token, -⟩ | ⟨input, e, h_token, -⟩
  · exact Or.inl ⟨token, input, h_token⟩
  · exact Or.inr ⟨input, e, h_token⟩

theorem refuse_behind {s : Stream ι} (h : s.error = none) (input : ι) (cause : Malformation) :
    (s.behind input).refuse cause =
      s.failedAt input (.malformed (s.behind input).line cause) :=
  refuse_of_none (s := s.behind input) h cause

theorem refuse_failedAt (s : Stream ι) (input : ι) (e : Error) (cause : Malformation) :
    (s.failedAt input e).refuse cause = s.failedAt input e :=
  refuse_of_some (s := s.failedAt input e) (by simp [failedAt]) cause

/-- Reads on by one event.  There is none after an error and at the end of the document. -/
def readEvent (s : Stream ι) : Option (Event Bytes) × Stream ι :=
  if s.Running then
    match s.readProperty with
    | (some ⟨name, .text value⟩, s') => (some (.field name value), s')
    | (some ⟨name, .object _⟩, s') => (some (.opened name), s')
    | (none, s') => (if s'.Running then some .closed else none, s')
  else (none, s)

/-- What follows a name is a text, an object or a fault. -/
theorem step_readContent {s : Stream ι} (h : s.error = none) (input : ι) (name : Bytes) :
    ∃ property event s', (s.behind input).readContent name = (property, s') ∧
      Step s property event s' := by
  unfold readContent
  rcases takeToken_cases (s := s.behind input) h with
    ⟨token, input₁, h_token⟩ | ⟨input₁, e, h_token⟩
  · rw [h_token, behind_behind]
    cases token with
    | colon =>
      dsimp only
      rcases takeToken_cases (s := s.behind input₁) h with
        ⟨token, input₂, h_value⟩ | ⟨input₂, e, h_value⟩
      · rw [h_value, behind_behind]
        cases token with
        | text value => exact ⟨_, _, _, rfl, .text name value input₂⟩
        | colon | openBrace | closeBrace | ended =>
          dsimp only
          rw [refuse_behind h]
          exact ⟨_, _, _, rfl, .failed input₂ _⟩
      · rw [h_value, failedAt_behind]
        dsimp only
        rw [refuse_failedAt]
        exact ⟨_, _, _, rfl, .failed input₂ e⟩
    | openBrace => exact ⟨_, _, _, rfl, .opened name input₁⟩
    | text _ | closeBrace | ended =>
      dsimp only
      rw [refuse_behind h]
      exact ⟨_, _, _, rfl, .failed input₁ _⟩
  · rw [h_token, failedAt_behind]
    dsimp only
    rw [refuse_failedAt]
    exact ⟨_, _, _, rfl, .failed input₁ e⟩

/-- Reading on does one of these five things, unless an error is recorded. -/
theorem step_readProperty {s : Stream ι} (h : s.error = none) :
    ∃ property event s', s.readProperty = (property, s') ∧ Step s property event s' := by
  unfold readProperty
  rcases takeToken_cases h with ⟨token, input, h_token⟩ | ⟨input, e, h_token⟩
  · rw [h_token]
    cases token with
    | text name => exact step_readContent h input name
    | closeBrace =>
      dsimp only
      rw [atTop_behind, refuse_behind h]
      cases h_top : s.atTop with
      | true => exact ⟨_, _, _, rfl, .failed input _⟩
      | false => exact ⟨_, _, _, rfl, .closed input h_top⟩
    | ended =>
      dsimp only
      rw [atTop_behind, refuse_behind h]
      cases h_top : s.atTop with
      | true => exact ⟨_, _, _, rfl, .finished input h_top⟩
      | false => exact ⟨_, _, _, rfl, .failed input _⟩
    | colon | openBrace =>
      dsimp only
      rw [refuse_behind h]
      exact ⟨_, _, _, rfl, .failed input _⟩
  · rw [h_token]
    exact ⟨_, _, _, rfl, .failed input e⟩

/-- A running stream takes one of the five steps, and the event read is the step's. -/
theorem step_cases {s : Stream ι} (h : s.Running) :
    ∃ property event s', s.readProperty = (property, s') ∧ s.readEvent = (event, s') ∧
      Step s property event s' := by
  obtain ⟨property, event, s', h_read, h_step⟩ := step_readProperty h.1
  refine ⟨property, event, s', h_read, ?_, h_step⟩
  rw [readEvent]
  rw [if_pos h, h_read]
  cases h_step with
  | text name value input => rfl
  | opened name input => rfl
  | closed input h_top =>
    have h_run : ((s.behind input).close).Running := h
    simp [h_run]
  | finished input h_top => simp [Running]
  | failed input e => simp [Running, failedAt]

theorem readEvent_of_not_running {s : Stream ι} (h : ¬s.Running) : s.readEvent = (none, s) := by
  simp [readEvent, h]

/-- An event takes at least one byte. -/
theorem left_readEvent_lt {s s' : Stream ι} {e : Event Bytes} (h : s.readEvent = (some e, s')) :
    Input.left s'.input < Input.left s.input := by
  by_cases h_run : s.Running
  · obtain ⟨property, event, s₁, h_read, h_event, h_step⟩ := step_cases h_run
    obtain ⟨rfl, rfl⟩ := Prod.mk.inj (h_event.symm.trans h)
    cases h_step with
    | text name value input => exact left_readProperty_lt_of_some h_read
    | opened name input => exact left_readProperty_lt_of_some h_read
    | closed input h_top =>
      have h_lt := left_readProperty_lt (s := s) h_top
      rw [h_read] at h_lt
      exact h_lt h_run.1
  · rw [readEvent_of_not_running h_run] at h
    simp at h

/-- What holds of a stream that has stopped, and of a running one if it holds behind its next
step, holds of every stream. -/
theorem step_induction {P : Stream ι → Prop} (h_stopped : ∀ s : Stream ι, ¬s.Running → P s)
    (h_step : ∀ s : Stream ι, s.Running → P s.readProperty.2 → P s) (s : Stream ι) : P s := by
  induction h_left : Input.left s.input using Nat.strongRecOn generalizing s with
  | ind n ih =>
    subst h_left
    by_cases h : s.Running
    · apply h_step s h
      obtain ⟨property, event, s', h_read, h_event, h_last⟩ := step_cases h
      rw [h_read]
      cases event with
      | some e => exact ih _ (left_readEvent_lt h_event) _ rfl
      | none =>
        apply h_stopped
        cases h_last with
        | finished input h_top => simp [Running]
        | failed input e => simp [Running, failedAt]
    · exact h_stopped s h

end Stream
end PropertyText
