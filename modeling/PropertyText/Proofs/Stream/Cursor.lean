/-
  PropertyText.Proofs.Stream.Cursor

  A stream keeps less than a cursor (ids, and the text it has not read), and answers as the
  cursor does, whichever objects are asked and in whichever order (`Stream.Stands.next`).
-/
import PropertyText.Proofs.Stream.Readable

namespace PropertyText

/-! ## Streams that stand where a cursor stands -/

namespace Stream

variable {ι : Type} [Input ι]

/-- The stream is in the midst of a well-formed document, where the cursor stands. -/
structure Follows (s : Stream ι) (c : Cursor) : Prop where
  running : s.Running
  nonempty : c ≠ []
  path : s.path = c.map OpenObject.number
  ahead : s.remaining.1 = c.ahead
  error : s.remaining.2.error = none
  numbered : c.Numbered s.nextId

/-- The stream stands where the cursor stands: in the midst of a document or at its end. -/
def Stands (s : Stream ι) (c : Cursor) : Prop :=
  s.Follows c ∨ c = [] ∧ s.error = none ∧ s.finished = true

/-- The stream stands where the cursor stands if it reads along with it and comes to the end of
the document without an error. -/
theorem stands_iff {s : Stream ι} {c : Cursor} :
    s.Stands c ↔ s.Reads c ∧ s.remaining.2.error = none := by
  constructor
  · rintro (h | ⟨rfl, h_error, h_finished⟩)
    · have h_path : s.path ≠ [] := by simpa [h.path] using h.nonempty
      have h_readable := readable_eq_remaining h.running h_path h.error
      exact ⟨Or.inl ⟨h.running, h.nonempty, h.path, h_readable.trans h.ahead, h.numbered⟩, h.error⟩
    · have h_stop : ¬s.Running := by simp [Running, h_finished]
      rw [remaining_of_stopped h_stop]
      exact ⟨Or.inr ⟨h_stop, List.forall_mem_nil _, fun _ => rfl⟩, h_error⟩
  · rintro ⟨h | h, h_error⟩
    · have h_path : s.path ≠ [] := by simpa [h.path] using h.nonempty
      have h_readable := readable_eq_remaining h.running h_path h_error
      exact Or.inl ⟨h.running, h.nonempty, h.path, h_readable ▸ h.readable, h_error, h.numbered⟩
    · rw [remaining_of_stopped h.stopped] at h_error
      exact Or.inr ⟨h.nil_of_ok h_error, h_error, h.finished h_error⟩

/-- A request for any object is answered as the cursor answers it. -/
theorem Stands.next {s : Stream ι} {c : Cursor} (h : s.Stands c) (number : Nat) :
    (s.next number).1 = (c.next number).1 ∧ (s.next number).2.Stands (c.next number).2 := by
  obtain ⟨h_reads, h_error⟩ := stands_iff.mp h
  obtain ⟨h_answer, h_next, h_end⟩ := h_reads.next number
  exact ⟨h_answer, stands_iff.mpr ⟨h_next, h_end ▸ h_error⟩⟩

theorem Stands.perform {s : Stream ι} {c : Cursor} (h : s.Stands c) (request : Request) :
    (s.perform request.call).1 = (c.answer request).1 ∧
      (s.perform request.call).2.Stands (c.answer request).2 := by
  cases request with
  | next object =>
    obtain ⟨h_answer, h_stands⟩ := h.next object
    exact ⟨congrArg Answer.property h_answer, h_stands⟩
  | enter name object => exact ⟨rfl, h⟩

theorem Stands.error {s : Stream ι} {c : Cursor} (h : s.Stands c) : s.error = none := by
  rcases h with h | ⟨-, h_error, -⟩
  · exact h.running.1
  · exact h_error

/-- The answers to any sequence of requests are the cursor's, and no error is recorded. -/
theorem Stands.transcript {s : Stream ι} {c : Cursor} (h : s.Stands c) (requests : List Request) :
    (s.transcript (requests.map Request.call)).map (fun entry => (entry.1, entry.2.2)) =
      (c.answers requests).map (·, none) := by
  induction requests generalizing s c with
  | nil => rfl
  | cons request requests ih =>
    obtain ⟨h_answer, h_stands⟩ := h.perform request
    exact congrArg₂ List.cons (Prod.ext h_answer h_stands.error) (ih h_stands)

/-- At the start of a well-formed document stream and cursor stand in the same place. -/
theorem stands_start {s : Stream ι} {t : Tree} (h_run : s.Running) (h_path : s.path = [rootId])
    (h_id : s.nextId = rootId + 1) (h_ahead : s.remaining.1 = t.events)
    (h_error : s.remaining.2.error = none) : s.Stands (.start t) := by
  refine Or.inl ⟨h_run, List.cons_ne_nil _ _, h_path, ?_, h_error, h_id ▸ Cursor.numbered_start t⟩
  rw [h_ahead, Cursor.start, Cursor.ahead, OpenObject.rest]
  cases t <;> rfl

/-- A stream that loads without an error reads the events of a tree, which is the one
loaded. -/
theorem exists_tree {s : Stream ι} {f : Fields} (h_run : s.Running) (h_path : s.path = [rootId])
    (h : s.load.1 = .ok f) :
    ∃ t : Tree, t.decoded = f ∧ s.remaining.1 = t.events ∧ s.remaining.2.error = none := by
  rw [load_eq_remaining h_run h_path] at h
  cases h_error : s.remaining.2.error with
  | some e => simp [h_error] at h
  | none =>
    -- A document that ends without an error has closed what it opened.
    have h_depth := depthAfter_readable s h_run (congrArg List.length h_path)
    rw [readable_eq_remaining h_run (by simp [h_path]) h_error] at h_depth
    obtain ⟨t, h_events⟩ := (Tree.exists_events_iff _).mpr h_depth
    rw [h_error, ← h_events, Tree.ofEvents_events] at h
    exact ⟨t, Except.ok.inj h, h_events.symm, rfl⟩

/-- A document that loads is a tree of which every caller sees what a cursor shows: asked in
whichever order, an object gives its next property, and none when it is not open or has no
further one.  Objects that were left do not open again, and no error is recorded. -/
theorem transcript_eq_cursor {σ : Type} [Source σ] {source : σ} {options : ReaderOptions}
    {f : Fields} (h : Fields.ofSource source options = .ok f) :
    ∃ t : Tree, t.decoded = f ∧
      (∀ requests : List Request,
        ((ofSource source options).transcript (requests.map Request.call)).map
            (fun entry => (entry.1, entry.2.2)) =
          ((Cursor.start t).answers requests).map (·, none)) ∧
      ∀ (front back more : List Request) (number : ObjectId),
        ((Cursor.start t).after front).IsOpen number →
        ¬((Cursor.start t).after (front ++ back)).IsOpen number →
        ¬((Cursor.start t).after (front ++ back ++ more)).IsOpen number := by
  obtain ⟨t, h_decoded, h_events, h_error⟩ :=
    exists_tree (s := ofSource source options) ⟨rfl, rfl⟩ rfl h
  have h_stands := stands_start ⟨rfl, rfl⟩ rfl rfl h_events h_error
  refine ⟨t, h_decoded, ?_, ?_⟩
  · intro requests
    exact h_stands.transcript requests
  · intro front back more number h_open h_closed
    exact Cursor.not_isOpen_after t h_open h_closed more

/-- In `a{b:1}c:2` the object `a` is skipped, asked too late, and entered all the same. -/
theorem transcript_skipped_eq_cursor :
    let source : Slice := { rest := [0x61, 0x7b, 0x62, 0x3a, 0x31, 0x7d, 0x63, 0x3a, 0x32] }
    let f : Fields := [("a", .object [("b", .text "1")]), ("c", .text "2")]
    let requests : List Request := [.next 0, .next 0, .next 1, .enter [0x61] 1, .next 0]
    Fields.ofSource source {} = .ok f ∧
      ∃ t : Tree, t.decoded = f ∧
        ((ofSource source {}).transcript (requests.map Request.call)).map
            (fun entry => (entry.1, entry.2.2)) =
          ((Cursor.start t).answers requests).map (·, none) := by
  intro source f requests
  have h_some : (Fields.ofSource source {}).toOption = some f := by decide +kernel
  have h_ok : Fields.ofSource source {} = .ok f := by
    cases h_load : Fields.ofSource source {} with
    | error e => simp [h_load, Except.toOption] at h_some
    | ok g => simpa [h_load, Except.toOption] using h_some
  obtain ⟨t, h_decoded, h_answers, -⟩ := transcript_eq_cursor h_ok
  exact ⟨h_ok, t, h_decoded, h_answers requests⟩

end Stream
end PropertyText
