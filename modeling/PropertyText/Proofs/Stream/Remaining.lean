/-
  PropertyText.Proofs.Stream.Remaining

  The document as the sequence of events that are still ahead of a stream
  (`Stream.remaining`).  A walk hands out just these events, and a load makes its tree of
  them.
-/
import PropertyText.Proofs.Stream.Step
import PropertyText.Proofs.Tree

namespace PropertyText
namespace Stream

variable {ι : Type}

variable [Input ι]

/-- The events that are still ahead, and the stream behind them. -/
def remaining (s : Stream ι) : List (Event Bytes) × Stream ι :=
  match _h : s.readEvent with
  | (none, s') => ([], s')
  | (some e, s') => s'.remaining.map (e :: ·) id
termination_by Input.left s.input
decreasing_by exact left_readEvent_lt _h

theorem remaining_of_none {s s' : Stream ι} (h : s.readEvent = (none, s')) :
    s.remaining = ([], s') := by
  rw [remaining]
  split <;> simp_all

theorem remaining_of_some {s s' : Stream ι} {e : Event Bytes} (h : s.readEvent = (some e, s')) :
    s.remaining = s'.remaining.map (e :: ·) id := by
  rw [remaining]
  split <;> simp_all

/-- The events that can still be read: those ahead, and the ends of the objects that are open
where reading stops. -/
def readable (s : Stream ι) : List (Event Bytes) :=
  s.remaining.1 ++ List.replicate (s.remaining.2.path.length - 1) .closed

theorem readable_of_none {s s' : Stream ι} (h : s.readEvent = (none, s')) :
    s.readable = List.replicate (s'.path.length - 1) .closed := by
  rw [readable, remaining_of_none h, List.nil_append]

theorem readable_of_some {s s' : Stream ι} {e : Event Bytes} (h : s.readEvent = (some e, s')) :
    s.readable = e :: s'.readable := by
  rw [readable, remaining_of_some h]
  rfl

/-! ## Through a view -/

section

variable {κ : Type} [Input κ] {view : ι → κ}

theorem readEvent_map (h : Input.View view) (s : Stream ι) :
    (s.map view).readEvent = s.readEvent.map id (map view) := by
  have h_running : (s.map view).Running ↔ s.Running := Iff.rfl
  unfold readEvent
  rw [readProperty_map h]
  simp only [h_running]
  split
  · obtain ⟨property, s'⟩ := s.readProperty
    rcases property with _ | ⟨name, value | object⟩ <;> rfl
  · rfl

theorem remaining_map (h : Input.View view) (s : Stream ι) :
    (s.map view).remaining = s.remaining.map id (map view) := by
  fun_induction remaining s with
  | case1 s s' h_event =>
    have h_view := readEvent_map h s
    rw [h_event] at h_view
    exact remaining_of_none h_view
  | case2 s e s' h_event ih =>
    have h_view := readEvent_map h s
    rw [h_event] at h_view
    rw [remaining_of_some h_view, ih]
    rfl

end

/-! ## Reading in the innermost object -/

/-- The innermost object reads on at once. -/
theorem next_innermost {s : Stream ι} (h : s.Running) {object : ObjectId}
    {outer : List ObjectId} (h_path : s.path = object :: outer) :
    s.next object = s.readProperty := by
  rw [next]
  rw [skipTo_of_top s h_path]
  simp [h.1, h.2, h_path]

theorem next_of_error {s : Stream ι} (h : s.error ≠ none) (object : ObjectId) :
    s.next object = (none, s) := by
  simp [next, Option.isSome_iff_ne_none, h]

/-! ## Walking and loading -/

/-- After an error a walk only closes the objects that it has entered. -/
theorem walkOnto_of_error {s : Stream ι} (h : s.error ≠ none) (seen : List (Event Bytes))
    (path : List ObjectId) :
    walkOnto seen s path = (seen.reverse ++ List.replicate (path.length - 1) .closed, s) := by
  induction path generalizing seen with
  | nil => rw [walkOnto_nil]; simp
  | cons object outer ih =>
    rw [walkOnto_of_none (next_of_error h object), ih]
    cases outer with
    | nil => simp
    | cons around outer => simp [List.replicate_succ]

/-- A walk hands out the events that are ahead, and then closes what an error left open. -/
theorem walkOnto_eq_remaining (s : Stream ι) (seen : List (Event Bytes)) (h : s.Running)
    (h_path : s.path ≠ []) :
    walkOnto seen s s.path =
      (seen.reverse ++ s.remaining.1 ++
          List.replicate (s.remaining.2.path.length - 1) .closed,
        s.remaining.2) := by
  induction s using step_induction generalizing seen with
  | h_stopped s h_stop => exact absurd h h_stop
  | h_step s _ ih =>
    obtain ⟨object, outer, h_cons⟩ := List.exists_cons_of_ne_nil h_path
    obtain ⟨property, event, s', h_read, h_event, h_step⟩ := step_cases h
    have h_next := next_innermost h h_cons
    rw [h_read] at h_next ih
    rw [h_cons]
    cases h_step with
    | text name value input =>
      have h_rest := ih (.field name value :: seen) h h_path
      rw [walkOnto_of_text h_next, remaining_of_some h_event, ← h_cons]
      exact h_rest.trans (by simp)
    | opened name input =>
      have h_rest := ih (.opened name :: seen) h (List.cons_ne_nil _ _)
      rw [walkOnto_of_object h_next, remaining_of_some h_event, ← h_cons]
      exact h_rest.trans (by simp)
    | closed input h_top =>
      have h_outer : outer ≠ [] := by
        rintro rfl
        simp [atTop, h_cons] at h_top
      have h_tail : (s.behind input).close.path = outer := by simp [close, behind, h_cons]
      have h_rest := ih (.closed :: seen) h (h_tail ▸ h_outer)
      rw [walkOnto_of_none h_next, remaining_of_some h_event, if_neg (by simpa using h_outer)]
      rw [h_tail] at h_rest
      exact h_rest.trans (by simp)
    | finished input h_top =>
      obtain rfl : outer = [] := by simpa [atTop, h_cons] using h_top
      rw [walkOnto_of_none h_next, walkOnto_nil, remaining_of_none h_event]
      simp [behind, h_cons]
    | failed input e =>
      have h_error : (s.failedAt input e).error ≠ none := by simp [failedAt]
      rw [walkOnto_of_none h_next, walkOnto_of_error h_error, remaining_of_none h_event]
      cases outer with
      | nil => simp [failedAt, h_cons]
      | cons around outer => simp [failedAt, h_cons, List.replicate_succ]

/-- The events ahead end at an error, or at the end of the document with nothing open. -/
theorem remaining_end (s : Stream ι) (h : s.Running) (h_path : s.path ≠ []) :
    s.remaining.2.error ≠ none ∨
      s.remaining.2.error = none ∧ s.remaining.2.finished = true ∧
        s.remaining.2.path.length = 1 := by
  induction s using step_induction with
  | h_stopped s h_stop => exact absurd h h_stop
  | h_step s _ ih =>
    obtain ⟨property, event, s', h_read, h_event, h_step⟩ := step_cases h
    rw [h_read] at ih
    cases h_step with
    | text name value input =>
      rw [remaining_of_some h_event]
      exact ih h h_path
    | opened name input =>
      rw [remaining_of_some h_event]
      exact ih h (List.cons_ne_nil _ _)
    | closed input h_top =>
      rw [remaining_of_some h_event]
      refine ih h ?_
      simpa [close, atTop] using h_top
    | finished input h_top =>
      rw [remaining_of_none h_event]
      refine Or.inr ⟨h.1, rfl, ?_⟩
      obtain ⟨object, outer, h_cons⟩ := List.exists_cons_of_ne_nil h_path
      simpa [behind, atTop, h_cons] using h_top
    | failed input e =>
      rw [remaining_of_none h_event]
      exact Or.inl (by simp [failedAt])

/-- Up to the end of a document without an error nothing is left open. -/
theorem readable_eq_remaining {s : Stream ι} (h : s.Running) (h_path : s.path ≠ [])
    (h_error : s.remaining.2.error = none) : s.readable = s.remaining.1 := by
  rcases remaining_end s h h_path with h_some | ⟨-, -, h_length⟩
  · exact absurd h_error h_some
  · rw [readable, h_length]
    exact List.append_nil _

/-- The events that can still be read close every object that is open, and no other. -/
theorem depthAfter_readable (s : Stream ι) {depth : Nat} (h : s.Running)
    (h_path : s.path.length = depth + 1) : Event.depthAfter depth s.readable = some 0 := by
  induction s using step_induction generalizing depth with
  | h_stopped s h_stop => exact absurd h h_stop
  | h_step s _ ih =>
    obtain ⟨property, event, s', h_read, h_event, h_step⟩ := step_cases h
    obtain ⟨object, outer, h_cons⟩ := List.exists_cons_of_length_eq_add_one h_path
    rw [h_read] at ih
    cases h_step with
    | text name value input =>
      rw [readable_of_some h_event]
      exact ih h h_path
    | opened name input =>
      rw [readable_of_some h_event]
      exact ih h (congrArg (· + 1) h_path)
    | closed input h_top =>
      rw [readable_of_some h_event]
      have h_outer : outer.length = depth := by simpa [h_cons] using h_path
      have h_tail : (s.behind input).close.path = outer := by simp [close, behind, h_cons]
      cases depth with
      | zero => simp [atTop, h_cons, List.length_eq_zero_iff.mp h_outer] at h_top
      | succ depth => exact ih h (h_tail ▸ h_outer)
    -- Where reading stops, only the ends of the open objects are left.
    | finished input h_top | failed input e =>
      rw [readable_of_none h_event]
      have h_length : s.path.length - 1 = depth := by omega
      simp only [behind, failedAt, h_length]
      exact Event.depthAfter_replicate_closed depth

/-- A load makes its tree of the events ahead, unless they end at an error. -/
theorem load_eq_remaining {s : Stream ι} (h : s.Running) (h_path : s.path = [rootId]) :
    s.load.1 =
      match s.remaining.2.error with
      | some e => .error e
      | none => .ok (Fields.ofEvents (s.remaining.1.map Event.decoded)) := by
  have h_walk := walkOnto_eq_remaining s [] h (by simp [h_path])
  rw [h_path] at h_walk
  unfold load readFields walk
  rw [h_walk]
  rcases remaining_end s h (by simp [h_path]) with h_error | ⟨h_error, -, h_length⟩
  · obtain ⟨e, h_some⟩ := Option.ne_none_iff_exists'.mp h_error
    simp [h_some]
  · simp [h_error, h_length]

end Stream
end PropertyText
