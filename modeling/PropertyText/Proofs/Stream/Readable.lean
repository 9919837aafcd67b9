/-
  PropertyText.Proofs.Stream.Readable

  A stream against a cursor, whether its document is well formed or not.  What can be read
  of a document is a tree: the events up to where reading stops, with the objects that are
  open there closed.  The stream answers every request as a cursor through this tree does,
  also behind an error, where neither has anything more (`Stream.Reads.next`).
-/
import PropertyText.Proofs.Cursor
import PropertyText.Proofs.Stream.Schedule

namespace PropertyText

namespace Cursor

variable {c : Cursor} {o : OpenObject} {outer : Cursor} {name : Bytes}

/-! ## What is ahead of a cursor -/

theorem ahead_of_field {value : Bytes} {rest : Tree} (h : o.rest = .field name value rest) :
    ahead (o :: outer) = .field name value :: ahead (o.advance :: outer) := by
  rw [ahead_cons, ahead_cons, h, OpenObject.rest, OpenObject.advance,
    (Tree.drop_succ_of_field h).1]
  rfl

theorem ahead_of_object {inner rest : Tree} (h : o.rest = .object name inner rest) :
    ahead (o :: outer) =
      .opened name :: ahead (⟨o.nextNumber, inner, 0⟩ :: o.advance :: outer) := by
  rw [ahead_cons, ahead, ahead_cons, h, OpenObject.rest, OpenObject.rest, OpenObject.advance,
    (Tree.drop_succ_of_object h).1]
  simp [Tree.events, Tree.drop]

theorem ahead_of_empty (h : o.rest = .empty) :
    ahead (o :: outer) = if outer.isEmpty then [] else .closed :: ahead outer := by
  rw [ahead_cons, h]
  rfl

/-- No open object has a further property. -/
def Exhausted (c : Cursor) : Prop := ∀ o ∈ c, o.rest = .empty

theorem ahead_of_exhausted (h : c.Exhausted) :
    c.ahead = List.replicate (c.length - 1) .closed := by
  induction c with
  | nil => rfl
  | cons o outer ih =>
    obtain ⟨h_rest, h_outer⟩ := List.forall_mem_cons.mp h
    rw [ahead_of_empty h_rest, ih h_outer]
    cases outer <;> simp [List.replicate_succ]

/-- Where only ends of objects are ahead, no object has a further property. -/
theorem exhausted_of_ahead (h : ∀ e ∈ c.ahead, e = .closed) : c.Exhausted := by
  induction c with
  | nil => exact List.forall_mem_nil _
  | cons o outer ih =>
    rw [ahead_cons, List.forall_mem_append] at h
    refine List.forall_mem_cons.mpr ⟨?_, ?_⟩
    · cases h_rest : o.rest with
      | empty => rfl
      | field | object => simp [h_rest, Tree.events] at h
    · cases outer with
      | nil => exact List.forall_mem_nil _
      | cons around outer => exact ih (List.forall_mem_cons.mp h.2).2

theorem Exhausted.dropWhile (h : c.Exhausted) (p : OpenObject → Bool) :
    Exhausted (c.dropWhile p) :=
  fun o h_mem => h o ((List.dropWhile_sublist p).mem h_mem)

theorem Exhausted.read (h : c.Exhausted) : c.read.1 = none ∧ c.read.2.Exhausted := by
  cases c with
  | nil => exact ⟨rfl, h⟩
  | cons o outer =>
    obtain ⟨h_rest, h_outer⟩ := List.forall_mem_cons.mp h
    rw [read_of_empty h_rest]
    exact ⟨rfl, h_outer⟩

theorem dropWhile_eq_nil_iff {number : Nat} :
    c.dropWhile (·.number != number) = [] ↔ ¬c.IsOpen number := by
  rw [List.dropWhile_eq_nil_iff]
  simp [IsOpen]

theorem next_of_not_isOpen {number : Nat} (h : ¬c.IsOpen number) : c.next number = (none, c) := by
  rw [next, dropWhile_eq_nil_iff.mpr h]

theorem next_of_isOpen {number : Nat} (h : c.IsOpen number) :
    c.next number = read (c.dropWhile (·.number != number)) := by
  have h_found : c.dropWhile (·.number != number) ≠ [] := by
    rwa [ne_eq, dropWhile_eq_nil_iff, not_not]
  obtain ⟨o, outer, h_cons⟩ := List.exists_cons_of_ne_nil h_found
  rw [next, h_cons]

theorem Exhausted.next (h : c.Exhausted) (number : Nat) :
    (c.next number).1 = none ∧ (c.next number).2.Exhausted := by
  by_cases h_open : c.IsOpen number
  · rw [next_of_isOpen h_open]
    exact (h.dropWhile _).read
  · rw [next_of_not_isOpen h_open]
    exact ⟨rfl, h⟩

end Cursor

namespace Stream

variable {ι : Type} [Input ι]

/-! ## Streams that read along a cursor -/

/-- The stream is in the midst of a document, where the cursor stands in all that can be read
of it. -/
structure Leads (s : Stream ι) (c : Cursor) : Prop where
  running : s.Running
  nonempty : c ≠ []
  path : s.path = c.map OpenObject.number
  readable : s.readable = c.ahead
  numbered : c.Numbered s.nextId

/-- The stream has stopped, and the cursor has nothing more either.  Without an error this is
the end of the document. -/
structure Ended (s : Stream ι) (c : Cursor) : Prop where
  stopped : ¬s.Running
  exhausted : c.Exhausted
  nil_of_ok : s.error = none → c = []

/-- The stream and the cursor have come equally far. -/
def Reads (s : Stream ι) (c : Cursor) : Prop := s.Leads c ∨ s.Ended c

omit [Input ι] in
theorem Ended.of_error {s : Stream ι} {c : Cursor} (h : s.error ≠ none) (h_c : c.Exhausted) :
    s.Ended c :=
  ⟨fun h_run => h h_run.1, h_c, fun h_ok => absurd h_ok h⟩

omit [Input ι] in
theorem Ended.finished {s : Stream ι} {c : Cursor} (h : s.Ended c) (h_error : s.error = none) :
    s.finished = true := by
  simpa [Running, h_error] using h.stopped

theorem readable_eq_of_cons {s s' : Stream ι} {event : Option (Event Bytes)} {e : Event Bytes}
    {events : List (Event Bytes)} (h_event : s.readEvent = (event, s')) (h_e : e ≠ .closed)
    (h : s.readable = e :: events) : event = some e ∧ s'.readable = events := by
  cases event with
  | none =>
    -- Where reading stops there is nothing but ends of objects.
    rw [readable_of_none h_event] at h
    exact absurd (List.eq_of_mem_replicate (h ▸ List.mem_cons_self)) h_e
  | some e' =>
    rw [readable_of_some h_event] at h
    obtain ⟨rfl, h_rest⟩ := List.cons.inj h
    exact ⟨rfl, h_rest⟩

/-- Reading on in the innermost object does to the stream what it does to the cursor. -/
theorem Leads.read {s : Stream ι} {c : Cursor} (h : s.Leads c) :
    s.readProperty.1 = c.read.1 ∧ s.readProperty.2.Reads c.read.2 := by
  obtain ⟨o, outer, rfl⟩ := List.exists_cons_of_ne_nil h.nonempty
  obtain ⟨property, event, s', h_read, h_event, h_step⟩ := step_cases h.running
  have h_path := h.path
  have h_ahead := h.readable
  rw [h_read]
  -- What is left of the innermost object says which step the stream takes.
  cases h_rest : o.rest with
  | field name value rest =>
    rw [Cursor.ahead_of_field h_rest] at h_ahead
    obtain ⟨rfl, h_ahead⟩ := readable_eq_of_cons h_event (by simp) h_ahead
    rw [Cursor.read_of_field h_rest]
    cases h_step with
    | text _ _ input =>
      exact ⟨rfl, Or.inl ⟨h.running, List.cons_ne_nil _ _, h_path, h_ahead,
        h.numbered.read_of_field h_rest⟩⟩
  | object name inner rest =>
    rw [Cursor.ahead_of_object h_rest] at h_ahead
    obtain ⟨rfl, h_ahead⟩ := readable_eq_of_cons h_event (by simp) h_ahead
    rw [Cursor.read_of_object h_rest]
    cases h_step with
    | opened _ input =>
      have h_next := h.numbered.1
      rw [h_next]
      refine ⟨rfl, Or.inl ⟨h.running, List.cons_ne_nil _ _, ?_, h_ahead,
        h.numbered.read_of_object h_rest⟩⟩
      simp [openObject, h_path, h_next, behind]
  | empty =>
    rw [Cursor.read_of_empty h_rest]
    rw [Cursor.ahead_of_empty h_rest] at h_ahead
    cases h_step with
    | text _ _ input | opened _ input =>
      rw [readable_of_some h_event] at h_ahead
      split at h_ahead <;> cases h_ahead
    | closed input h_top =>
      obtain ⟨around, outer, rfl⟩ : ∃ around rest, outer = around :: rest := by
        cases outer with
        | nil => simp [atTop, h_path] at h_top
        | cons around outer => exact ⟨around, outer, rfl⟩
      rw [readable_of_some h_event] at h_ahead
      refine ⟨rfl, Or.inl ⟨h.running, List.cons_ne_nil _ _, ?_, (List.cons.inj h_ahead).2,
        h.numbered.read_of_empty h_rest⟩⟩
      simp [close, h_path]
    | finished input h_top =>
      obtain rfl : outer = [] := by simpa [atTop, h_path] using h_top
      exact ⟨rfl, Or.inr ⟨by simp [Running], List.forall_mem_nil _, fun _ => rfl⟩⟩
    | failed input e =>
      refine ⟨rfl, Or.inr (.of_error (by simp [failedAt]) (Cursor.exhausted_of_ahead ?_))⟩
      rw [readable_of_none h_event] at h_ahead
      intro e h_mem
      cases outer with
      | nil => cases h_mem
      | cons around outer =>
        apply List.eq_of_mem_replicate
        rw [h_ahead]
        exact List.mem_cons_of_mem _ h_mem

/-- Skipping to an open object leaves the objects inside it, and nothing else changes. -/
theorem Leads.skipTo {s : Stream ι} {c : Cursor} (h : s.Leads c) {number : Nat}
    (h_open : c.IsOpen number) :
    (s.skipTo number).Reads (c.dropWhile (·.number != number)) ∧
      (s.skipTo number).remaining.2 = s.remaining.2 := by
  induction s using step_induction generalizing c with
  | h_stopped s h_stop => exact absurd h.running h_stop
  | h_step s _ ih =>
    obtain ⟨o, outer, rfl⟩ := List.exists_cons_of_ne_nil h.nonempty
    have h_path := h.path
    rw [List.map_cons] at h_path
    by_cases h_top : o.number = number
    · subst h_top
      rw [skipTo_of_top s h_path]
      exact ⟨Or.inl (by simpa using h), rfl⟩
    · have h_outer : number ∈ outer.map OpenObject.number := by
        simpa [Cursor.IsOpen, Ne.symm h_top] using h_open
      have h_inside : s.atTop = false := by
        cases outer with
        | nil => simp at h_outer
        | cons around outer => simp [atTop, h_path]
      obtain ⟨h_open', h_drop⟩ := Cursor.dropWhile_read h_top h_outer h.numbered.2.1
      -- One property is read away, and the object is still open behind it.
      rw [skipTo_of_ne s h_path h_top h_inside, ← h_drop, (walked_eq h.running).2]
      rcases h.read.2 with h_leads | h_ended
      · rw [h_leads.running.1]
        exact ih h_leads h_open'
      · have h_error : s.readProperty.2.error ≠ none := by
          intro h_ok
          rw [h_ended.nil_of_ok h_ok] at h_open'
          cases h_open'
        rw [if_pos (Option.isSome_iff_ne_none.mpr h_error)]
        exact ⟨Or.inr (.of_error h_error (h_ended.exhausted.dropWhile _)), rfl⟩

theorem Ended.next_eq {s : Stream ι} {c : Cursor} (h : s.Ended c) (number : Nat) :
    s.next number = (none, s) := by
  by_cases h_error : s.error = none
  · simp [Stream.next, h.finished h_error]
  · exact next_of_error h_error number

theorem Leads.next_of_not_isOpen {s : Stream ι} {c : Cursor} (h : s.Leads c) {number : Nat}
    (h_open : ¬c.IsOpen number) : s.next number = (none, s) := by
  have h_path : number ∉ s.path := by rwa [h.path]
  simp [Stream.next, h_path]

/-- An open object is skipped to, and unless this fails its next property is read. -/
theorem Leads.next_of_isOpen {s : Stream ι} {c : Cursor} (h : s.Leads c) {number : Nat}
    (h_open : c.IsOpen number) :
    s.next number = if (s.skipTo number).error.isSome then (none, s.skipTo number)
      else (s.skipTo number).readProperty := by
  have h_path : number ∈ s.path := by rwa [h.path]
  simp [Stream.next, h.running.1, h.running.2, h_path]

/-- A request for any object is answered as the cursor answers it. -/
theorem Reads.next {s : Stream ι} {c : Cursor} (h : s.Reads c) (number : Nat) :
    (s.next number).1 = (c.next number).1 ∧ (s.next number).2.Reads (c.next number).2 ∧
      (s.next number).2.remaining.2 = s.remaining.2 := by
  rcases h with h | h
  · by_cases h_open : c.IsOpen number
    · obtain ⟨h_skip, h_end⟩ := h.skipTo h_open
      rw [h.next_of_isOpen h_open, Cursor.next_of_isOpen h_open, ← h_end]
      rcases h_skip with h_leads | h_ended
      · rw [h_leads.running.1, (walked_eq h_leads.running).2]
        exact ⟨h_leads.read.1, h_leads.read.2, rfl⟩
      · -- The object is still open where skipping has failed, and has no further property.
        have h_error : (s.skipTo number).error ≠ none := by
          intro h_ok
          exact Cursor.dropWhile_eq_nil_iff.mp (h_ended.nil_of_ok h_ok) h_open
        obtain ⟨h_none, h_exhausted⟩ := h_ended.exhausted.read
        rw [if_pos (Option.isSome_iff_ne_none.mpr h_error), h_none]
        exact ⟨rfl, Or.inr (.of_error h_error h_exhausted), rfl⟩
    · rw [h.next_of_not_isOpen h_open, Cursor.next_of_not_isOpen h_open]
      exact ⟨rfl, Or.inl h, rfl⟩
  · obtain ⟨h_none, h_exhausted⟩ := h.exhausted.next number
    rw [h.next_eq, h_none]
    refine ⟨rfl, Or.inr ⟨h.stopped, h_exhausted, fun h_ok => ?_⟩, rfl⟩
    rw [h.nil_of_ok h_ok]
    rfl

/-- The answers to any sequence of requests are the cursor's. -/
theorem Reads.performAll {s : Stream ι} {c : Cursor} (h : s.Reads c) (requests : List Request) :
    (s.performAll (requests.map Request.call)).1 = c.answers requests ∧
      (s.performAll (requests.map Request.call)).2.Reads (c.after requests) ∧
      (s.performAll (requests.map Request.call)).2.remaining.2 = s.remaining.2 := by
  induction requests generalizing s c with
  | nil => exact ⟨rfl, h, rfl⟩
  | cons request requests ih =>
    rw [List.map_cons, performAll_cons]
    cases request with
    | enter name object =>
      obtain ⟨h_answers, h_reads⟩ := ih h
      exact ⟨congrArg (Answer.object object :: ·) h_answers, h_reads⟩
    | next object =>
      obtain ⟨h_answer, h_next, h_end⟩ := h.next object
      obtain ⟨h_answers, h_reads, h_behind⟩ := ih h_next
      exact ⟨congrArg₂ List.cons (congrArg Answer.property h_answer) h_answers, h_reads,
        h_behind.trans h_end⟩

/-- What can be read of a document is a tree, at the start of which its stream stands. -/
theorem exists_readable {s : Stream ι} (h_run : s.Running) (h_path : s.path = [rootId])
    (h_id : s.nextId = rootId + 1) : ∃ t : Tree, t.events = s.readable ∧ s.Reads (.start t) := by
  have h_depth := depthAfter_readable s h_run (congrArg List.length h_path)
  obtain ⟨t, h_events⟩ := (Tree.exists_events_iff _).mpr h_depth
  refine ⟨t, h_events, Or.inl ⟨h_run, List.cons_ne_nil _ _, h_path, ?_,
    h_id ▸ Cursor.numbered_start t⟩⟩
  rw [← h_events, Cursor.start, Cursor.ahead, OpenObject.rest]
  cases t <;> rfl

end Stream
end PropertyText
