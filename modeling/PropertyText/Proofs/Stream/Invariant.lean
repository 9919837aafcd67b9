/-
  PropertyText.Proofs.Stream.Invariant

  Whatever is requested of a stream, it only reads properties where it is running and records
  violations; what these two keep holds behind every sequence of requests
  (`Stream.Invariant.performAll`).  Reading a property takes tokens one after the other, and
  stops for good where it fails to (`Stream.Takes`).
-/
import PropertyText.Proofs.Grammar.Document
import PropertyText.Proofs.Stream.Schedule

namespace PropertyText

variable {ι : Type} [Input ι]

/-- Tokens that are read one after the other, none of which is the end of the text. -/
inductive Token.Scans (comments : Bool) : Mode → ι → List Token → ι → Prop
  | nil {mode : Mode} {i : ι} : Scans comments mode i [] i
  | cons {mode : Mode} {i j k : ι} {token : Token} {tokens : List Token} :
      token ≠ .ended → scan comments mode i = (.ok token, j) → Scans comments .blank j tokens k →
      Scans comments mode i (token :: tokens) k

namespace Stream

/-! ## The tokens of a property -/

/-- From one stream to another some tokens are taken.  Unless reading goes on, there may be an
attempt at one more. -/
structure Takes (s : Stream ι) (tokens : List Token) (s' : Stream ι) : Prop where
  comments : s'.comments = s.comments
  scans : ∃ i, Token.Scans s.comments s.mode s.input tokens i ∧
    (s'.input = i ∨ ¬s'.Running ∧ ∃ mode : Token.Mode, mode.IsBetween ∧
      s'.input = (Token.scan s.comments mode i).2)

namespace Takes

variable {s s' : Stream ι} {tokens : List Token} {token : Token} {input : ι}

/-- One token is taken, or at the end of the text nothing more is read. -/
theorem one (h_scan : Token.scan s.comments s.mode s.input = (.ok token, input))
    (h_comments : s'.comments = s.comments) (h_input : s'.input = input)
    (h_ended : token = .ended → ¬s'.Running) :
    Takes s (if token = .ended then [] else [token]) s' := by
  refine ⟨h_comments, ?_⟩
  by_cases h_token : token = .ended
  · rw [if_pos h_token]
    refine ⟨s.input, .nil, Or.inr ⟨h_ended h_token, s.mode, s.isBetween_mode, ?_⟩⟩
    rw [h_input, h_scan]
  · rw [if_neg h_token]
    exact ⟨input, .cons h_token h_scan .nil, Or.inl h_input⟩

theorem cons (h_token : token ≠ .ended)
    (h_scan : Token.scan s.comments s.mode s.input = (.ok token, input))
    (h : Takes (s.behind input) tokens s') : Takes s (token :: tokens) s' := by
  obtain ⟨h_comments, i, h_scans, h_end⟩ := h
  exact ⟨h_comments, i, .cons h_token h_scan h_scans, h_end⟩

/-- An attempt that fails is the last one. -/
theorem failed {e : Error} (h_scan : (Token.scan s.comments s.mode s.input).2 = input) :
    Takes s [] (s.failedAt input e) := by
  refine ⟨rfl, s.input, .nil, Or.inr ⟨?_, s.mode, s.isBetween_mode, h_scan.symm⟩⟩
  simp [Running, failedAt]

end Takes

omit [Input ι] in
theorem not_running_failedAt (s : Stream ι) (input : ι) (e : Error) :
    ¬(s.failedAt input e).Running := by
  simp [Running, failedAt]

theorem takes_readContent {s : Stream ι} (h : s.error = none) (name : Bytes) :
    ∃ tokens, Takes s tokens (s.readContent name).2 ∧
      ∀ p, (s.readContent name).1 = some p → .text name :: tokens = p.event.tokens := by
  unfold readContent
  rcases takeToken_scan h with ⟨token, input, h_take, h_scan⟩ | ⟨input, e, h_take, h_scan⟩
  · rw [h_take]
    cases token with
    | colon =>
      dsimp only
      rcases takeToken_scan (s := s.behind input) h with
        ⟨second, input₂, h_take₂, h_scan₂⟩ | ⟨input₂, e, h_take₂, h_scan₂⟩
      · rw [h_take₂, behind_behind]
        cases second with
        | text value =>
          refine ⟨_, .cons (by simp) h_scan (.one h_scan₂ rfl rfl (by simp)), ?_⟩
          rintro p ⟨⟩
          rfl
        | colon | openBrace | closeBrace | ended =>
          dsimp only
          rw [refuse_behind h]
          refine ⟨_, .cons (by simp) h_scan
            (.one h_scan₂ rfl rfl fun _ => not_running_failedAt _ _ _), ?_⟩
          rintro p ⟨⟩
      · rw [h_take₂, failedAt_behind]
        dsimp only
        rw [refuse_failedAt]
        refine ⟨_, .cons (by simp) h_scan (.failed h_scan₂), ?_⟩
        rintro p ⟨⟩
    | openBrace =>
      refine ⟨_, .one h_scan rfl rfl (by simp), ?_⟩
      rintro p ⟨⟩
      rfl
    | text _ | closeBrace | ended =>
      dsimp only
      rw [refuse_behind h]
      refine ⟨_, .one h_scan rfl rfl fun _ => not_running_failedAt _ _ _, ?_⟩
      rintro p ⟨⟩
  · rw [h_take]
    dsimp only
    rw [refuse_failedAt]
    refine ⟨_, .failed h_scan, ?_⟩
    rintro p ⟨⟩

/-- Reading on takes tokens, which are those of the property if one is handed out. -/
theorem takes_readProperty {s : Stream ι} (h : s.error = none) :
    ∃ tokens, Takes s tokens s.readProperty.2 ∧
      ∀ p, s.readProperty.1 = some p → tokens = p.event.tokens := by
  unfold readProperty
  rcases takeToken_scan h with ⟨token, input, h_take, h_scan⟩ | ⟨input, e, h_take, h_scan⟩
  · rw [h_take]
    cases token with
    | text name =>
      obtain ⟨tokens, h_takes, h_tokens⟩ := takes_readContent (s := s.behind input) h name
      exact ⟨_, .cons (by simp) h_scan h_takes, h_tokens⟩
    | closeBrace =>
      dsimp only
      cases (s.behind input).atTop with
      | true => exact ⟨_, .one h_scan rfl rfl (by simp), by rintro p ⟨⟩⟩
      | false => exact ⟨_, .one h_scan rfl rfl (by simp), by rintro p ⟨⟩⟩
    | ended =>
      dsimp only
      rw [refuse_behind h]
      -- Either way the stream stops: the document has come to its end, or it ought not to have.
      cases (s.behind input).atTop with
      | true => exact ⟨_, .one h_scan rfl rfl fun _ => by simp [Running], by rintro p ⟨⟩⟩
      | false =>
        exact ⟨_, .one h_scan rfl rfl fun _ => not_running_failedAt _ _ _, by rintro p ⟨⟩⟩
    | colon | openBrace =>
      dsimp only
      rw [refuse_behind h]
      exact ⟨_, .one h_scan rfl rfl (by simp), by rintro p ⟨⟩⟩
  · rw [h_take]
    exact ⟨_, .failed h_scan, by rintro p ⟨⟩⟩

/-! ## What every request keeps -/

/-- Kept by reading a property where the stream is running, and by recording a violation. -/
structure Invariant (P : Stream ι → Prop) : Prop where
  read {s : Stream ι} : s.Running → P s → P s.readProperty.2
  violate {s : Stream ι} (cause : Violation) : P s → P (s.violate cause)

/-- Behind a violation nothing is read any more. -/
theorem not_running_violate (s : Stream ι) (cause : Violation) : ¬(s.violate cause).Running := by
  intro h
  have h_error := h.1
  simp [violate, record] at h_error

/-- Within an object, reading on without an error does not come to the end of the document. -/
theorem running_readProperty {s : Stream ι} (h : s.Running) (h_inside : s.atTop = false)
    (h_error : s.readProperty.2.error = none) : s.readProperty.2.Running := by
  obtain ⟨property, event, s', h_read, -, h_step⟩ := step_cases h
  rw [h_read] at h_error ⊢
  cases h_step with
  | text | opened | closed => exact h
  | finished input h_top => rw [h_top] at h_inside; cases h_inside
  | failed input e => cases h_error

/-- A property that is handed out does not stop the stream. -/
theorem running_of_some {s s' : Stream ι} {p : Property} (h : s.Running)
    (h_some : s.readProperty = (some p, s')) : s'.Running := by
  obtain ⟨property, event, s₁, h_read, -, h_step⟩ := step_cases h
  obtain ⟨rfl, rfl⟩ := Prod.mk.inj (h_read.symm.trans h_some)
  cases h_step with
  | text | opened => exact h

/-! ## Loading -/

theorem load_snd (s : Stream ι) : s.load.2 = (s.walk rootId).2 := by
  unfold load
  dsimp only
  split <;> rfl

theorem load_of_error {s : Stream ι} {e : Error} (h : (s.readFields rootId).2.error = some e) :
    s.load = (.error e, (s.readFields rootId).2) := by
  unfold load
  dsimp only
  rw [h]

theorem load_of_error_none {s : Stream ι} (h : (s.readFields rootId).2.error = none) :
    s.load = (.ok (s.readFields rootId).1, (s.readFields rootId).2) := by
  unfold load
  dsimp only
  rw [h]

/-- What is loaded is what is read of the document. -/
theorem readFields_of_load {s : Stream ι} {f : Fields} (h : s.load.1 = .ok f) :
    (s.readFields rootId).1 = f := by
  cases h_error : (s.readFields rootId).2.error with
  | some e =>
    rw [load_of_error h_error] at h
    cases h
  | none =>
    rw [load_of_error_none h_error] at h
    exact Except.ok.inj h

/-! ## What every step keeps -/

namespace Invariant

variable {P : Stream ι → Prop} {s s' : Stream ι}

theorem skipTo (h : Invariant P) (h_run : s.Running) (h_s : P s) (object : ObjectId) :
    P (s.skipTo object) ∧ ((s.skipTo object).error = none → (s.skipTo object).Running) := by
  fun_induction Stream.skipTo object s with
  | case1 s mid rest h_path => exact ⟨h_s, fun _ => h_run⟩
  | case2 s top mid rest h_path h_top property s' h_read e h_error =>
    have h_next := h.read h_run h_s
    rw [h_read] at h_next
    refine ⟨h_next, ?_⟩
    intro h_none
    rw [h_none] at h_error
    cases h_error
  | case3 s top mid rest h_path h_top property s' h_read h_error ih =>
    have h_next := h.read h_run h_s
    have h_run' := running_readProperty h_run (by simp [atTop, h_path]) (h_read ▸ h_error)
    rw [h_read] at h_next h_run'
    exact ih h_run' h_next
  | case4 s h_path => exact ⟨h_s, fun _ => h_run⟩

/-- A request for a property is turned down, or what is inside other objects is skipped, and
then the next property is read unless skipping has failed. -/
theorem next_cases (h : Invariant P) (h_s : P s) (object : ObjectId) :
    (∃ s₁, P s₁ ∧ s.next object = (none, s₁)) ∨
      ∃ s₁, P s₁ ∧ s₁.Running ∧ s.next object = s₁.readProperty := by
  unfold Stream.next
  split
  · exact Or.inl ⟨s, h_s, rfl⟩
  · rename_i h_guard
    have h_run := running_of_guard h_guard
    obtain ⟨h_skip, h_run'⟩ := h.skipTo h_run h_s object
    dsimp only
    split
    · exact Or.inl ⟨_, h_skip, rfl⟩
    · rename_i h_error
      -- Skipping has not failed, and it does not come to the end of the document.
      exact Or.inr ⟨_, h_skip, h_run' (by simpa using h_error), rfl⟩

theorem next (h : Invariant P) (h_s : P s) (object : ObjectId) : P (s.next object).2 := by
  rcases h.next_cases h_s object with ⟨s₁, h_s₁, h_next⟩ | ⟨s₁, h_s₁, h_run, h_next⟩
  · rw [h_next]
    exact h_s₁
  · rw [h_next]
    exact h.read h_run h_s₁

theorem walkOnto (h : Invariant P) (h_s : P s) (seen : List (Event Bytes))
    (path : List ObjectId) : P (Stream.walkOnto seen s path).2 := by
  fun_induction Stream.walkOnto seen s path with
  | case1 seen s => exact h_s
  | case2 seen s object outer name value s' h_next ih
  | case3 seen s object outer name child s' h_next ih
  | case4 seen s object outer s' h_next ih =>
    have h_first := h.next h_s object
    rw [h_next] at h_first
    exact ih h_first

theorem take (h : Invariant P) (h_s : P s) (object : ObjectId) (count : Nat) :
    P (s.take object count).2 := by
  induction count generalizing s with
  | zero => exact h_s
  | succ n ih =>
    have h_first := h.next h_s object
    rw [Stream.take]
    rcases h_next : s.next object with ⟨_ | p, s₁⟩
    · rw [h_next] at h_first
      exact h_first
    · rw [h_next] at h_first
      exact ih h_first

theorem load (h : Invariant P) (h_s : P s) : P s.load.2 := by
  rw [load_snd]
  exact h.walkOnto h_s [] [rootId]

theorem value (h : Invariant P) (h_s : P s) (p : Property) : P (s.value p).2 := by
  unfold Stream.value
  split
  · exact h_s
  · exact h.violate _ h_s

theorem perform (h : Invariant P) (h_s : P s) (call : Call) : P (s.perform call).2 := by
  cases call with
  | next object => exact h.next h_s object
  | take object count => exact h.take h_s object count
  | walk object => exact h.walkOnto h_s [] [object]
  | readFields object => exact h.walkOnto h_s [] [object]
  | load => exact h.load h_s
  | value p => exact h.value h_s p
  | inner p =>
    unfold Stream.perform Stream.inner
    dsimp only
    split
    · exact h_s
    · exact h.violate _ h_s
  -- The text is asked for first, and this may record an error already.
  | parse p type =>
    have h_value := h.value h_s p
    unfold Stream.perform Stream.parse Stream.valueText
    dsimp only
    split
    · exact h_value
    · exact h.violate _ h_value
  | choose p names =>
    have h_value := h.value h_s p
    unfold Stream.perform Stream.choose Stream.valueText
    dsimp only
    split
    · exact h_value
    · exact h.violate _ h_value
  | check message condition =>
    unfold Stream.perform Stream.check
    dsimp only
    split
    · exact h_s
    · exact h.violate _ h_s

/-- What holds of a stream, and is kept by reading and by recording violations, holds behind
every sequence of requests. -/
theorem performAll (h : Invariant P) (h_s : P s) (calls : List Call) :
    P (s.performAll calls).2 := by
  induction calls generalizing s with
  | nil => exact h_s
  | cons call calls ih =>
    rw [performAll_cons]
    exact ih (h.perform h_s call)

/-! ### What is handed out -/

section

variable {Q : Property → Prop}
  (h_read : ∀ {s s' : Stream ι} {p : Property},
    s.Running → P s → s.readProperty = (some p, s') → Q p)
include h_read

/-- What holds of every property that is read holds of every one that is handed out. -/
theorem next_some (h : Invariant P) (h_s : P s) {object : ObjectId} {p : Property}
    (h_next : s.next object = (some p, s')) : Q p := by
  rcases h.next_cases h_s object with ⟨s₁, -, h_none⟩ | ⟨s₁, h_s₁, h_run, h_some⟩
  · rw [h_none] at h_next
    cases h_next
  · exact h_read h_run h_s₁ (h_some.symm.trans h_next)

theorem mem_take (h : Invariant P) (h_s : P s) {object : ObjectId} {count : Nat} {p : Property}
    (h_mem : p ∈ (s.take object count).1) : Q p := by
  induction count generalizing s with
  | zero => cases h_mem
  | succ n ih =>
    have h_first := h.next h_s object
    rw [Stream.take] at h_mem
    rcases h_next : s.next object with ⟨_ | q, s₁⟩
    · rw [h_next] at h_mem
      cases h_mem
    · rw [h_next] at h_mem h_first
      rcases List.mem_cons.mp h_mem with rfl | h_rest
      · exact h.next_some h_read h_s h_next
      · exact ih h_first h_rest

/-- The events of a walk are those of properties and the ends of objects. -/
theorem mem_walkOnto (h : Invariant P) (h_s : P s) {seen : List (Event Bytes)}
    {path : List ObjectId} {e : Event Bytes} (h_mem : e ∈ (Stream.walkOnto seen s path).1) :
    e ∈ seen ∨ e = .closed ∨ ∃ p, Q p ∧ p.event = e := by
  fun_induction Stream.walkOnto seen s path with
  | case1 seen s => exact Or.inl (List.mem_reverse.mp h_mem)
  | case2 seen s object outer name value s' h_next ih
  | case3 seen s object outer name child s' h_next ih =>
    have h_first := h.next h_s object
    rw [h_next] at h_first
    have h_q := h.next_some h_read h_s h_next
    rcases ih h_first h_mem with h_seen | h_other
    · rcases List.mem_cons.mp h_seen with rfl | h_before
      · exact Or.inr (Or.inr ⟨_, h_q, rfl⟩)
      · exact Or.inl h_before
    · exact Or.inr h_other
  | case4 seen s object outer s' h_next ih =>
    have h_first := h.next h_s object
    rw [h_next] at h_first
    rcases ih h_first h_mem with h_seen | h_other
    · split at h_seen
      · exact Or.inl h_seen
      · exact (List.mem_cons.mp h_seen).elim (fun h_e => Or.inr (Or.inl h_e)) Or.inl
    · exact Or.inr h_other

end

end Invariant

/-! ## Walks close what they enter -/

theorem depthAfter_walkOnto {s : Stream ι} {seen : List (Event Bytes)} {path : List ObjectId}
    (h : Event.depthAfter 0 seen.reverse = some (path.length - 1)) :
    Event.depthAfter 0 (walkOnto seen s path).1 = some 0 := by
  fun_induction walkOnto seen s path with
  | case1 seen s => exact h
  | case2 seen s object outer name value s' h_next ih =>
    apply ih
    rw [List.reverse_cons, Event.depthAfter_append, h]
    rfl
  | case3 seen s object outer name child s' h_next ih =>
    apply ih
    rw [List.reverse_cons, Event.depthAfter_append, h]
    rfl
  | case4 seen s object outer s' h_next ih =>
    apply ih
    cases outer with
    | nil => exact h
    | cons around outer =>
      rw [dif_neg (by simp), List.reverse_cons, Event.depthAfter_append, h]
      rfl

/-- Every object that a walk enters is closed in its events, so they are those of a tree. -/
theorem exists_tree_walk (s : Stream ι) (object : ObjectId) :
    ∃ t : Tree, t.events = (s.walk object).1 :=
  (Tree.exists_events_iff _).mpr (depthAfter_walkOnto rfl)

end Stream
end PropertyText
