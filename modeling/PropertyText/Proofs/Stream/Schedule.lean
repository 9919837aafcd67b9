/-
  PropertyText.Proofs.Stream.Schedule

  Whichever objects are asked for their properties, in whichever order, a stream goes
  through one and the same walk; what a caller is handed is a part of it, and what is left
  of the walk does not depend on what was handed out (`Stream.Passes`).  So all callers who
  read a document to its end come to the same error: `Stream.error_eq_of_exhausts`.
-/
import PropertyText.Proofs.Stream.Remaining

namespace PropertyText

/-- The event of the document that a property is. -/
def Property.event (p : Property) : Event Bytes :=
  match p.content with
  | .text value => .field p.name value
  | .object _ => .opened p.name

namespace Stream

variable {ι : Type} [Input ι]

/-! ## The full walk -/

/-- The properties ahead in the order of the document, each with the stream behind it.  They
are handed out if it is always the innermost object that is asked. -/
def walked (s : Stream ι) : List (Property × Stream ι) :=
  match _h : s.readEvent with
  | (none, _) => []
  | (some _, s') => (s.readProperty.1.map (·, s')).toList ++ s'.walked
termination_by Input.left s.input
decreasing_by exact left_readEvent_lt _h

theorem walked_of_none {s s' : Stream ι} (h : s.readEvent = (none, s')) : s.walked = [] := by
  rw [walked]
  split <;> simp_all

theorem walked_of_some {s s' : Stream ι} {e : Event Bytes} (h : s.readEvent = (some e, s')) :
    s.walked = (s.readProperty.1.map (·, s')).toList ++ s'.walked := by
  rw [walked]
  split <;> simp_all

theorem walked_of_stopped {s : Stream ι} (h : ¬s.Running) : s.walked = [] :=
  walked_of_none (readEvent_of_not_running h)

theorem remaining_of_stopped {s : Stream ι} (h : ¬s.Running) : s.remaining = ([], s) :=
  remaining_of_none (readEvent_of_not_running h)

omit [Input ι] in
/-- A step that is no event of the document stops the stream. -/
theorem Step.stops {s s' : Stream ι} {property : Option Property}
    (h : Step s property none s') : property = none ∧ ¬s'.Running := by
  cases h with
  | finished input h_top => simp [Running]
  | failed input e => simp [Running, failedAt]

/-- The walk hands out what the stream reads next, and goes on behind it. -/
theorem walked_eq {s : Stream ι} (h : s.Running) :
    s.walked = (s.readProperty.1.map (·, s.readProperty.2)).toList ++
        s.readProperty.2.walked ∧
      s.remaining.2 = s.readProperty.2.remaining.2 := by
  obtain ⟨property, event, s', h_read, h_event, h_step⟩ := step_cases h
  rw [h_read]
  cases event with
  | some e =>
    rw [walked_of_some h_event, h_read, remaining_of_some h_event]
    exact ⟨rfl, rfl⟩
  | none =>
    obtain ⟨rfl, h_stop⟩ := h_step.stops
    rw [walked_of_none h_event, walked_of_stopped h_stop, remaining_of_none h_event,
      remaining_of_stopped h_stop]
    exact ⟨rfl, rfl⟩

/-- The properties of the walk are the events of the document, the ends of objects left out. -/
theorem map_event_walked (s : Stream ι) :
    s.walked.map (fun handed => handed.1.event) = s.remaining.1.filter (· ≠ .closed) := by
  induction s using step_induction with
  | h_stopped s h_stop => rw [walked_of_stopped h_stop, remaining_of_stopped h_stop]; rfl
  | h_step s h_run ih =>
    obtain ⟨property, event, s', h_read, h_event, h_step⟩ := step_cases h_run
    rw [h_read] at ih
    cases h_step with
    | text name value input =>
      rw [walked_of_some h_event, remaining_of_some h_event, h_read]
      simpa [Property.event] using ih
    | opened name input =>
      rw [walked_of_some h_event, remaining_of_some h_event, h_read]
      simpa [Property.event] using ih
    | closed input h_top =>
      rw [walked_of_some h_event, remaining_of_some h_event, h_read]
      simpa using ih
    | finished input h_top => rw [walked_of_none h_event, remaining_of_none h_event]; rfl
    | failed input e => rw [walked_of_none h_event, remaining_of_none h_event]; rfl

/-- Every property of the walk leaves less of the input than those before it. -/
theorem pairwise_walked (s : Stream ι) :
    (s.walked.Pairwise fun a b => Input.left b.2.input < Input.left a.2.input) ∧
      ∀ handed ∈ s.walked, Input.left handed.2.input < Input.left s.input := by
  induction s using step_induction with
  | h_stopped s h_stop => simp [walked_of_stopped h_stop]
  | h_step s h_run ih =>
    obtain ⟨property, event, s', h_read, h_event, -⟩ := step_cases h_run
    rw [h_read] at ih
    cases event with
    | none => simp [walked_of_none h_event]
    | some e =>
      have h_lt := left_readEvent_lt h_event
      have h_behind : ∀ handed ∈ s'.walked, Input.left handed.2.input < Input.left s.input :=
        fun handed h_mem => Nat.lt_trans (ih.2 handed h_mem) h_lt
      rw [walked_of_some h_event, h_read]
      cases property with
      | none => exact ⟨ih.1, h_behind⟩
      | some p =>
        exact ⟨List.pairwise_cons.mpr ⟨ih.2, ih.1⟩, List.forall_mem_cons.mpr ⟨h_lt, h_behind⟩⟩

theorem nodup_walked (s : Stream ι) : s.walked.Nodup := by
  refine s.pairwise_walked.1.imp ?_
  rintro a b h_lt rfl
  exact Nat.lt_irrefl _ h_lt

/-- The events of a walk through the whole document are the properties of the walk, the ends
of objects left out. -/
theorem filter_walk {s : Stream ι} (h : s.Running) (h_path : s.path = [rootId]) :
    (s.walk rootId).1.filter (· ≠ .closed) = s.walked.map fun handed => handed.1.event := by
  have h_walk := walkOnto_eq_remaining s [] h (by simp [h_path])
  rw [h_path] at h_walk
  rw [walk, h_walk, map_event_walked]
  simp

/-! ## Passing along the walk -/

/-- From one stream on to a second one, further along in the same walk, some properties were
handed out: some of those between the two, in their order. -/
structure Passes (s : Stream ι) (handed : List (Property × Stream ι)) (s' : Stream ι) : Prop where
  between : ∃ passed, s.walked = passed ++ s'.walked ∧ handed.Sublist passed
  remaining : s.remaining.2 = s'.remaining.2

namespace Passes

variable {s s₁ s₂ : Stream ι} {handed more : List (Property × Stream ι)}

theorem refl (s : Stream ι) : Passes s [] s := ⟨⟨[], rfl, .slnil⟩, rfl⟩

theorem trans (h : Passes s handed s₁) (h_more : Passes s₁ more s₂) :
    Passes s (handed ++ more) s₂ := by
  obtain ⟨passed, h_walked, h_sub⟩ := h.between
  obtain ⟨further, h_walked₁, h_sub₁⟩ := h_more.between
  refine ⟨⟨passed ++ further, ?_, h_sub.append h_sub₁⟩, h.remaining.trans h_more.remaining⟩
  rw [h_walked, h_walked₁, List.append_assoc]

/-- What was handed out need not have been. -/
theorem unseen (h : Passes s handed s₁) : Passes s [] s₁ := by
  obtain ⟨passed, h_walked, -⟩ := h.between
  exact ⟨⟨passed, h_walked, List.nil_sublist passed⟩, h.remaining⟩

theorem sublist (h : Passes s handed s₁) : handed.Sublist s.walked := by
  obtain ⟨passed, h_walked, h_sub⟩ := h.between
  rw [h_walked]
  exact h_sub.trans (List.sublist_append_left _ _)

theorem readProperty (h : s.Running) :
    Passes s (s.readProperty.1.map (·, s.readProperty.2)).toList s.readProperty.2 := by
  obtain ⟨h_walked, h_remaining⟩ := walked_eq h
  exact ⟨⟨_, h_walked, List.Sublist.refl _⟩, h_remaining⟩

end Passes

/-- The document is open around all other objects, and none of these is named as it is. -/
def Rooted (s : Stream ι) : Prop :=
  ∃ inner, s.path = inner ++ [rootId] ∧ rootId ∉ inner ∧ rootId < s.nextId

omit [Input ι] in
theorem Rooted.step {s s' : Stream ι} {property : Option Property} {event : Option (Event Bytes)}
    (h : s.Rooted) (h_step : Step s property event s') : s'.Rooted := by
  obtain ⟨inner, h_path, h_mem, h_id⟩ := h
  cases h_step with
  | text | finished | failed => exact ⟨inner, h_path, h_mem, h_id⟩
  | opened name input =>
    refine ⟨s.nextId :: inner, by simp [openObject, behind, h_path], ?_, Nat.lt_succ_of_lt h_id⟩
    rw [List.mem_cons, not_or]
    exact ⟨Nat.ne_of_lt h_id, h_mem⟩
  | closed input h_top =>
    cases inner with
    | nil => simp [atTop, h_path] at h_top
    | cons top inner =>
      exact ⟨inner, by simp [close, h_path], fun h_in => h_mem (List.mem_cons_of_mem _ h_in), h_id⟩

/-- Skipping reads on in the walk, until an error is found or the wanted object is innermost. -/
theorem skipTo_cases {s : Stream ι} (h : s.Running) (h_root : s.Rooted) (object : ObjectId) :
    Passes s [] (s.skipTo object) ∧ (s.skipTo object).Rooted ∧
      ((s.skipTo object).error ≠ none ∨
        (s.skipTo object).Running ∧ (object = rootId → (s.skipTo object).atTop = true)) := by
  induction s using step_induction with
  | h_stopped s h_stop => exact absurd h h_stop
  | h_step s _ ih =>
    obtain ⟨inner, h_path, h_mem, h_id⟩ := h_root
    cases inner with
    | nil =>
      have h_top : s.atTop = true := by simp [atTop, h_path]
      rw [skipTo_of_atTop s object h_top]
      exact ⟨.refl s, ⟨[], h_path, h_mem, h_id⟩, .inr ⟨h, fun _ => h_top⟩⟩
    | cons top inner =>
      by_cases h_top : top = object
      · subst h_top
        rw [skipTo_of_top s h_path]
        refine ⟨.refl s, ⟨top :: inner, h_path, h_mem, h_id⟩, .inr ⟨h, ?_⟩⟩
        -- The document itself is not among the objects inside it.
        rintro rfl
        exact absurd List.mem_cons_self h_mem
      · have h_inside : s.atTop = false := by simp [atTop, h_path]
        obtain ⟨property, event, s', h_read, -, h_step⟩ := step_cases h
        have h_passes := (Passes.readProperty h).unseen
        have h_rooted := Rooted.step ⟨top :: inner, h_path, h_mem, h_id⟩ h_step
        rw [skipTo_of_ne s h_path h_top h_inside]
        rw [h_read] at h_passes ih ⊢
        cases h_step with
        | failed input e => exact ⟨h_passes, h_rooted, .inl (by simp [failedAt])⟩
        | finished input h_end => rw [h_end] at h_inside; cases h_inside
        | text | opened | closed =>
          have h_run : s.Running := h
          rw [if_neg (by simp [openObject, close, h_run.1])]
          obtain ⟨h_rest, h_end⟩ := ih h h_rooted
          exact ⟨h_passes.trans h_rest, h_end⟩

/-- Whatever object is asked, the stream passes along the walk, and what is handed out is the
property just read.  Where the document itself has no further property, the stream stops. -/
theorem next_cases {s : Stream ι} (h_root : s.Rooted) (object : ObjectId) :
    Passes s ((s.next object).1.map (·, (s.next object).2)).toList (s.next object).2 ∧
      (s.next object).2.Rooted ∧
      (object = rootId → (s.next object).1 = none → ¬(s.next object).2.Running) := by
  unfold next
  split
  · rename_i h_guard
    refine ⟨.refl s, h_root, ?_⟩
    rintro rfl - h_run
    obtain ⟨inner, h_path, -⟩ := h_root
    simp [show s.error = none from h_run.1, show s.finished = false from h_run.2,
      h_path] at h_guard
  · rename_i h_guard
    have h_run := running_of_guard h_guard
    obtain ⟨h_skip, h_rooted, h_end⟩ := skipTo_cases h_run h_root object
    dsimp only
    split
    · rename_i h_error
      refine ⟨h_skip, h_rooted, fun _ _ h => ?_⟩
      rw [h.1] at h_error
      cases h_error
    · rename_i h_error
      obtain ⟨h_run', h_top⟩ := h_end.resolve_left (by simpa using h_error)
      obtain ⟨property, event, s', h_read, -, h_step⟩ := step_cases h_run'
      have h_passes := h_skip.trans (Passes.readProperty h_run')
      rw [h_read] at h_passes ⊢
      refine ⟨h_passes, h_rooted.step h_step, ?_⟩
      intro h_object h_none
      cases h_step with
      | text | opened => cases h_none
      | closed input h_inside => rw [h_top h_object] at h_inside; cases h_inside
      | finished input h_top => simp [Running]
      | failed input e => simp [Running, failedAt]

/-! ## Schedules -/

/-- Whether a call only asks a property for what it holds, or makes a check of the caller's. -/
def Call.isQuestion : Call → Bool
  | .value _ | .inner _ | .parse _ _ | .choose _ _ | .check _ _ => true
  | .next _ | .take _ _ | .walk _ | .readFields _ | .load => false

/-- A schedule asks objects for their next properties, in any order and however often.
Between these it may ask any question that records no error. -/
def Schedule (s : Stream ι) : List Call → Prop
  | [] => True
  | call :: calls =>
    ((∃ object, call = .next object) ∨
        call.isQuestion = true ∧ (s.perform call).2.error = s.error) ∧
      (s.perform call).2.Schedule calls

/-- A schedule at whose end the document is asked and has no further property. -/
structure Exhausts (s : Stream ι) (calls : List Call) : Prop where
  schedule : s.Schedule calls
  last_call : calls.getLast? = some (.next rootId)
  last_answer : (s.performAll calls).1.getLast? = some (.property none)

/-- The property that an answer hands out. -/
def Answer.property? : Answer → Option Property
  | .property p => p
  | _ => none

/-- The properties that are handed out, each with the stream behind it. -/
def returned (s : Stream ι) : List Call → List (Property × Stream ι)
  | [] => []
  | call :: calls =>
    ((s.perform call).1.property?.map (·, (s.perform call).2)).toList ++
      (s.perform call).2.returned calls

/-- A question touches nothing but the error, and hands out no property. -/
theorem perform_question {call : Call} (h : call.isQuestion = true) (s : Stream ι) :
    (s.perform call).2 = { s with error := (s.perform call).2.error } ∧
      (s.perform call).1.property? = none := by
  cases call with
  | next | take | walk | readFields | load => cases h
  | value p => refine ⟨?_, rfl⟩; simp only [perform, value]; split <;> rfl
  | inner p => refine ⟨?_, rfl⟩; simp only [perform, inner]; split <;> rfl
  | parse p type =>
    refine ⟨?_, rfl⟩
    simp only [perform, parse, valueText, value]
    split <;> split <;> rfl
  | choose p names =>
    refine ⟨?_, rfl⟩
    simp only [perform, choose, valueText, value]
    split <;> split <;> rfl
  | check message condition => refine ⟨?_, rfl⟩; simp only [perform, check]; split <;> rfl

theorem performAll_cons (s : Stream ι) (call : Call) (calls : List Call) :
    s.performAll (call :: calls) =
      ((s.perform call).1 :: ((s.perform call).2.performAll calls).1,
        ((s.perform call).2.performAll calls).2) := rfl

/-- Along a schedule a stream passes along the walk. -/
theorem Schedule.passes {s : Stream ι} {calls : List Call} (h : s.Schedule calls)
    (h_root : s.Rooted) :
    Passes s (s.returned calls) (s.performAll calls).2 ∧ (s.performAll calls).2.Rooted := by
  induction calls generalizing s with
  | nil => exact ⟨.refl s, h_root⟩
  | cons call calls ih =>
    obtain ⟨h_call, h_calls⟩ := h
    rw [returned, performAll_cons]
    rcases h_call with ⟨object, rfl⟩ | ⟨h_question, h_error⟩
    · obtain ⟨h_passes, h_rooted, -⟩ := next_cases h_root object
      obtain ⟨h_rest, h_end⟩ := ih h_calls h_rooted
      exact ⟨h_passes.trans h_rest, h_end⟩
    · obtain ⟨h_only, h_none⟩ := perform_question h_question s
      have h_same : (s.perform call).2 = s := by rw [h_only, h_error]
      rw [h_same] at h_calls
      rw [h_none, h_same]
      exact ih h_calls h_root

/-- A schedule that exhausts a stream stops it. -/
theorem Exhausts.stops {s : Stream ι} {calls : List Call} (h : s.Exhausts calls)
    (h_root : s.Rooted) : ¬(s.performAll calls).2.Running := by
  induction calls generalizing s with
  | nil => cases h.last_call
  | cons call calls ih =>
    obtain ⟨⟨h_call, h_calls⟩, h_last, h_answer⟩ := h
    have h_one : s.Schedule [call] := ⟨h_call, trivial⟩
    have h_rooted := (h_one.passes h_root).2
    rw [performAll_cons] at h_answer ⊢
    cases calls with
    | nil =>
      obtain rfl : call = .next rootId := by simpa using h_last
      have h_none : (s.next rootId).1 = none := by simpa [perform, performAll] using h_answer
      exact (next_cases h_root rootId).2.2 rfl h_none
    | cons second calls =>
      exact ih ⟨h_calls, by simpa using h_last, by simpa [performAll_cons] using h_answer⟩ h_rooted

/-- At the end of the document every schedule has come to where the walk ends. -/
theorem Exhausts.performAll_eq {s : Stream ι} {calls : List Call} (h : s.Exhausts calls)
    (h_root : s.Rooted) : (s.performAll calls).2 = s.remaining.2 := by
  rw [(h.schedule.passes h_root).1.remaining, remaining_of_stopped (h.stops h_root)]

/-- Two callers who read a document to its end, each in an order of its own, come to the same
error or both to none.  Each is handed a part of the walk through the whole document, in the
order of the walk, and no property of it twice. -/
theorem error_eq_of_exhausts {σ : Type} [Source σ] {source : σ} {options : ReaderOptions}
    {first second : List Call} (h_first : (ofSource source options).Exhausts first)
    (h_second : (ofSource source options).Exhausts second) :
    let s := ofSource source options
    (s.performAll first).2.error = (s.performAll second).2.error ∧
      (s.returned first).Sublist s.walked ∧ (s.returned second).Sublist s.walked ∧
      s.walked.Nodup ∧
      s.walked.map (fun handed => handed.1.event) = (s.walk rootId).1.filter (· ≠ .closed) := by
  intro s
  have h_root : s.Rooted := ⟨[], rfl, List.not_mem_nil, Nat.lt_succ_self _⟩
  refine ⟨?_, ?_, ?_, s.nodup_walked, (filter_walk ⟨rfl, rfl⟩ rfl).symm⟩
  · rw [h_first.performAll_eq h_root, h_second.performAll_eq h_root]
  · exact (h_first.schedule.passes h_root).1.sublist
  · exact (h_second.schedule.passes h_root).1.sublist

/-- In `a{b:1 c}` the fault behind `c` is found by a caller who skips the object `a`, and by
one who enters it. -/
theorem error_eq_of_skipped_fault :
    let s := ofSource ({ rest := [0x61, 0x7b, 0x62, 0x3a, 0x31, 0x20, 0x63, 0x7d] } : Slice) {}
    let skipping : List Call := [.next 0, .next 0]
    let entering : List Call := [.next 0, .inner ⟨[0x61], .object 1⟩, .next 1,
      .value ⟨[0x62], .text [0x31]⟩, .next 1, .next 0]
    s.Exhausts skipping ∧ s.Exhausts entering ∧
      (s.performAll skipping).2.error = (s.performAll entering).2.error ∧
      (s.performAll entering).2.error = some (.malformed 1 .contentExpected) := by
  intro s skipping entering
  have h_skipping : s.Exhausts skipping := by
    refine ⟨⟨.inl ⟨_, rfl⟩, .inl ⟨_, rfl⟩, trivial⟩, rfl, ?_⟩
    have h_none : ((s.next 0).2.next 0).1 = none := by decide +kernel
    exact congrArg (fun property => some (Answer.property property)) h_none
  have h_entering : s.Exhausts entering := by
    refine ⟨⟨.inl ⟨_, rfl⟩, .inr ⟨rfl, rfl⟩, .inl ⟨_, rfl⟩, .inr ⟨rfl, rfl⟩, .inl ⟨_, rfl⟩,
      .inl ⟨_, rfl⟩, trivial⟩, rfl, ?_⟩
    have h_none : ((((s.next 0).2.next 1).2.next 1).2.next 0).1 = none := by decide +kernel
    exact congrArg (fun property => some (Answer.property property)) h_none
  refine ⟨h_skipping, h_entering, (error_eq_of_exhausts h_skipping h_entering).1, ?_⟩
  decide +kernel

end Stream
end PropertyText
