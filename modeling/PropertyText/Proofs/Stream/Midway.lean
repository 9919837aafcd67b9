/-
  PropertyText.Proofs.Stream.Midway

  Reading a tree from the midst of a document.  Whatever was requested before, what is read
  of an open object are its properties that have not been handed out, and the stream then
  stands behind the object (`Stream.Leads.walk`).  Main statement:
  `Stream.readFields_midway`.
-/
import PropertyText.Proofs.Stream.Invariant
import PropertyText.Proofs.Stream.Readable

namespace PropertyText

/-! ## Open objects -/

namespace Cursor

variable {nextId : Nat} {o : OpenObject} {inner outer : Cursor}

/-- Every open object but the document itself is the one that its parent has handed out
last. -/
def Nested : Cursor → Prop
  | [] => True
  | [_] => True
  | o :: around :: outer =>
    (∃ name place, around.returned = place + 1 ∧
      around.body.drop place = .object name o.body around.rest) ∧ Nested (around :: outer)

theorem Nested.tail (h : Nested (o :: outer)) : Nested outer := by
  cases outer with
  | nil => trivial
  | cons around outer => exact h.2

theorem Nested.read {c : Cursor} (h : c.Nested) : c.read.2.Nested := by
  cases c with
  | nil => trivial
  | cons o outer =>
    cases h_rest : o.rest with
    | empty =>
      rw [read_of_empty h_rest]
      exact h.tail
    | field name value rest =>
      rw [read_of_field h_rest]
      cases outer with
      | nil => trivial
      | cons around outer => exact h
    | object name inner rest =>
      rw [read_of_object h_rest]
      have h_behind : o.advance.rest = rest := (Tree.drop_succ_of_object h_rest).1
      refine ⟨⟨name, o.returned, rfl, ?_⟩, ?_⟩
      · rw [h_behind]
        exact h_rest
      · cases outer with
        | nil => trivial
        | cons around outer => exact h

theorem Nested.dropWhile {c : Cursor} (h : c.Nested) (p : OpenObject → Bool) :
    Nested (c.dropWhile p) := by
  induction c with
  | nil => exact h
  | cons o outer ih =>
    rw [List.dropWhile_cons]
    split
    · exact ih h.tail
    · exact h

theorem Nested.next {c : Cursor} (h : c.Nested) (number : Nat) : (c.next number).2.Nested := by
  by_cases h_open : c.IsOpen number
  · rw [next_of_isOpen h_open]
    exact (h.dropWhile _).read
  · rw [next_of_not_isOpen h_open]
    exact h

theorem Nested.of_append {inner : Cursor} (h : Nested (inner ++ outer)) : Nested outer := by
  induction inner with
  | nil => exact h
  | cons i inner ih => exact ih h.tail

/-- The objects inside an open one are those in front of it, for they bear other numbers. -/
theorem Numbered.dropWhile_append (h : Numbered nextId (inner ++ o :: outer)) :
    (inner ++ o :: outer).dropWhile (·.number != o.number) = o :: outer := by
  induction inner generalizing nextId with
  | nil => simp
  | cons i inner ih =>
    obtain ⟨-, h_lt, h_behind⟩ := h
    have h_ne : i.number ≠ o.number := Nat.ne_of_gt (h_lt o (by simp))
    rw [List.cons_append, List.dropWhile_cons_of_pos (by simpa using h_ne)]
    exact ih h_behind

theorem Numbered.not_isOpen_outer (h : Numbered nextId (inner ++ o :: outer)) :
    ¬IsOpen outer o.number := by
  induction inner generalizing nextId with
  | nil =>
    intro h_open
    obtain ⟨around, h_mem, h_number⟩ := List.mem_map.mp h_open
    exact absurd h_number (Nat.ne_of_lt (h.2.1 around h_mem))
  | cons i inner ih => exact ih h.2.2

/-! ### Behind calls -/

/-- Leaves the object with a number and those inside it, if it is open. -/
def leave (c : Cursor) (number : Nat) : Cursor :=
  match c.dropWhile (·.number != number) with
  | [] => c
  | _ :: outer => outer

/-- Hands out the next properties of an object, at most as many as given. -/
def take (c : Cursor) (number : Nat) : Nat → Cursor
  | 0 => c
  | n + 1 =>
    match c.next number with
    | (none, c) => c
    | (some _, c) => c.take number n

/-- The cursor behind a call.  An object that is read as a whole is left. -/
def perform (c : Cursor) : Stream.Call → Cursor
  | .next object => (c.next object).2
  | .take object count => c.take object count
  | .walk object | .readFields object => c.leave object
  | .load => c.leave rootId
  | .value _ | .inner _ | .parse _ _ | .choose _ _ | .check _ _ => c

/-- The cursor behind a sequence of calls. -/
def performAll (c : Cursor) : List Stream.Call → Cursor
  | [] => c
  | call :: calls => (c.perform call).performAll calls

theorem leave_append (h : Numbered nextId (inner ++ o :: outer)) :
    leave (inner ++ o :: outer) o.number = outer := by
  rw [leave, h.dropWhile_append]

theorem leave_of_not_isOpen {c : Cursor} {number : Nat} (h : ¬c.IsOpen number) :
    c.leave number = c := by
  rw [leave, dropWhile_eq_nil_iff.mpr h]

theorem Exhausted.leave {c : Cursor} (h : c.Exhausted) (number : Nat) :
    (c.leave number).Exhausted := by
  have h_found := h.dropWhile (·.number != number)
  rw [Cursor.leave]
  split
  · exact h
  · rename_i h_eq
    rw [h_eq] at h_found
    exact (List.forall_mem_cons.mp h_found).2

theorem exists_append_of_isOpen {c : Cursor} {number : Nat} (h : c.IsOpen number) :
    ∃ inner o outer, c = inner ++ o :: outer ∧ o.number = number := by
  obtain ⟨o, h_mem, h_number⟩ := List.mem_map.mp h
  obtain ⟨inner, outer, rfl⟩ := List.append_of_mem h_mem
  exact ⟨inner, o, outer, rfl, h_number⟩

theorem Nested.leave {c : Cursor} (h : c.Nested) (number : Nat) : (c.leave number).Nested := by
  have h_found := h.dropWhile (·.number != number)
  rw [Cursor.leave]
  split
  · exact h
  · rename_i h_eq
    rw [h_eq] at h_found
    exact h_found.tail

theorem Nested.take {c : Cursor} (h : c.Nested) (number count : Nat) :
    (c.take number count).Nested := by
  induction count generalizing c with
  | zero => exact h
  | succ n ih =>
    have h_next := h.next number
    rw [Cursor.take]
    rcases h_eq : c.next number with ⟨_ | p, c'⟩
    · rwa [h_eq] at h_next
    · rw [h_eq] at h_next
      exact ih h_next

theorem Nested.perform {c : Cursor} (h : c.Nested) (call : Stream.Call) :
    (c.perform call).Nested := by
  cases call with
  | next object => exact h.next object
  | take object count => exact h.take object count
  | walk object | readFields object => exact h.leave object
  | load => exact h.leave rootId
  | value | inner | parse | choose | check => exact h

theorem Nested.performAll {c : Cursor} (h : c.Nested) (calls : List Stream.Call) :
    (c.performAll calls).Nested := by
  induction calls generalizing c with
  | nil => exact h
  | cons call calls ih => exact ih (h.perform call)

end Cursor

namespace Stream

variable {ι : Type} [Input ι]

/-! ## Walking below an open object -/

/-- A walk goes on with what its innermost object gives next. -/
theorem walkOnto_congr {s s₁ : Stream ι} {object : ObjectId} (h : s.next object = s₁.next object)
    (seen : List (Event Bytes)) (outer : List ObjectId) :
    walkOnto seen s (object :: outer) = walkOnto seen s₁ (object :: outer) := by
  rcases h_next : s₁.next object with ⟨_ | ⟨name, value | child⟩, s'⟩
  · rw [walkOnto_of_none (h.trans h_next), walkOnto_of_none h_next]
  · rw [walkOnto_of_text (h.trans h_next), walkOnto_of_text h_next]
  · rw [walkOnto_of_object (h.trans h_next), walkOnto_of_object h_next]

/-- A walk below the innermost objects hands out what is ahead in them, and comes to those
around. -/
theorem Leads.walkOnto {s : Stream ι} (front : Cursor) {outer : Cursor}
    (h : s.Leads (front ++ outer)) (h_front : front ≠ []) (seen : List (Event Bytes)) :
    (Stream.walkOnto seen s (front.map OpenObject.number)).1 = seen.reverse ++ front.ahead ∧
      (Stream.walkOnto seen s (front.map OpenObject.number)).2.Reads outer ∧
      (Stream.walkOnto seen s (front.map OpenObject.number)).2.remaining.2 =
        s.remaining.2 := by
  -- By induction on the steps to the end of the document.  The objects that the walk still has
  -- to close are in front, and `outer` is left alone.
  induction s using step_induction generalizing front seen with
  | h_stopped s h_stop => exact absurd h.running h_stop
  | h_step s h_run ih =>
    obtain ⟨o, front, rfl⟩ := List.exists_cons_of_ne_nil h_front
    have h_next : s.next o.number = s.readProperty := next_innermost h_run h.path
    obtain ⟨h_property, h_reads⟩ := h.read
    rw [(walked_eq h_run).2]
    rcases h_read : s.readProperty with ⟨property, s'⟩
    rw [h_read] at h_next h_property h_reads ih
    rw [List.cons_append] at h_property h_reads
    cases h_rest : o.rest with
    | field name value rest =>
      rw [Cursor.read_of_field h_rest] at h_property h_reads
      subst h_property
      have h_leads := h_reads.resolve_right fun h => h.stopped (running_of_some h_run h_read)
      obtain ⟨h_events, h_behind⟩ :=
        ih (o.advance :: front) h_leads (List.cons_ne_nil _ _) (.field name value :: seen)
      rw [List.map_cons, walkOnto_of_text h_next, Cursor.ahead_of_field h_rest]
      exact ⟨by simpa using h_events, h_behind⟩
    | object name inner rest =>
      rw [Cursor.read_of_object h_rest] at h_property h_reads
      subst h_property
      have h_leads := h_reads.resolve_right fun h => h.stopped (running_of_some h_run h_read)
      obtain ⟨h_events, h_behind⟩ := ih (⟨o.nextNumber, inner, 0⟩ :: o.advance :: front)
        h_leads (List.cons_ne_nil _ _) (.opened name :: seen)
      rw [List.map_cons, walkOnto_of_object h_next, Cursor.ahead_of_object h_rest]
      exact ⟨by simpa using h_events, h_behind⟩
    | empty =>
      rw [Cursor.read_of_empty h_rest] at h_property h_reads
      subst h_property
      rw [List.map_cons, walkOnto_of_none h_next, Cursor.ahead_of_empty h_rest]
      cases front with
      | nil => exact ⟨by simp [walkOnto_nil], by simpa [walkOnto_nil] using h_reads,
          by simp [walkOnto_nil]⟩
      | cons around front =>
        rcases h_reads with h_leads | h_ended
        · obtain ⟨h_events, h_behind⟩ :=
            ih (around :: front) h_leads (List.cons_ne_nil _ _) (.closed :: seen)
          exact ⟨by simpa using h_events, h_behind⟩
        · -- Where reading has failed, the objects that were entered are closed and no more.
          have h_error : s'.error ≠ none := fun h_ok => by cases h_ended.nil_of_ok h_ok
          obtain ⟨h_inside, h_outside⟩ := List.forall_mem_append.mp h_ended.exhausted
          rw [walkOnto_of_error (by simpa using h_error), Cursor.ahead_of_exhausted h_inside]
          exact ⟨by simp, Or.inr (.of_error h_error h_outside), rfl⟩

/-- A walk below an open object skips what is inside it, and hands out what is left of it. -/
theorem Leads.walk {s : Stream ι} {inner outer : Cursor} {o : OpenObject}
    (h : s.Leads (inner ++ o :: outer)) :
    (s.walk o.number).1 = o.rest.events ∧ (s.walk o.number).2.Reads outer ∧
      (s.walk o.number).2.remaining.2 = s.remaining.2 := by
  have h_open : Cursor.IsOpen (inner ++ o :: outer) o.number := by simp [Cursor.IsOpen]
  have h_next := h.next_of_isOpen h_open
  obtain ⟨h_skip, h_end⟩ := h.skipTo h_open
  rw [h.numbered.dropWhile_append] at h_skip
  rw [Stream.walk, ← h_end]
  rcases h_skip with h_leads | h_ended
  · have h_same : s.next o.number = (s.skipTo o.number).next o.number := by
      rw [h_next, h_leads.running.1, next_innermost h_leads.running h_leads.path]
      rfl
    rw [walkOnto_congr h_same]
    exact Leads.walkOnto [o] h_leads (List.cons_ne_nil _ _) []
  · have h_error : (s.skipTo o.number).error ≠ none := fun h_ok => by
      cases h_ended.nil_of_ok h_ok
    obtain ⟨h_rest, h_outer⟩ := List.forall_mem_cons.mp h_ended.exhausted
    rw [if_pos (Option.isSome_iff_ne_none.mpr h_error)] at h_next
    rw [walkOnto_of_none h_next, walkOnto_nil, h_rest]
    exact ⟨rfl, Or.inr (.of_error h_error h_outer), rfl⟩

/-- An object that is not open has nothing more, and nothing is read for it. -/
theorem Reads.next_of_not_isOpen {s : Stream ι} {c : Cursor} (h : s.Reads c) {number : Nat}
    (h_open : ¬c.IsOpen number) : s.next number = (none, s) := by
  rcases h with h | h
  · exact h.next_of_not_isOpen h_open
  · exact h.next_eq number

theorem walk_of_next_none {s : Stream ι} {object : ObjectId} (h : s.next object = (none, s)) :
    s.walk object = ([], s) := by
  rw [walk, walkOnto_of_none h, walkOnto_nil]
  rfl

theorem Reads.walk {s : Stream ι} {c : Cursor} (h : s.Reads c) (object : ObjectId) :
    (s.walk object).2.Reads (c.leave object) ∧
      (s.walk object).2.remaining.2 = s.remaining.2 := by
  rcases h with h | h
  · by_cases h_open : c.IsOpen object
    · obtain ⟨inner, o, outer, rfl, rfl⟩ := Cursor.exists_append_of_isOpen h_open
      rw [Cursor.leave_append h.numbered]
      exact h.walk.2
    · rw [Cursor.leave_of_not_isOpen h_open, walk_of_next_none (h.next_of_not_isOpen h_open)]
      exact ⟨Or.inl h, rfl⟩
  · rw [walk_of_next_none (h.next_eq object)]
    refine ⟨Or.inr ⟨h.stopped, h.exhausted.leave object, fun h_ok => ?_⟩, rfl⟩
    rw [h.nil_of_ok h_ok]
    rfl

theorem Reads.take {s : Stream ι} {c : Cursor} (h : s.Reads c) (object : ObjectId) (count : Nat) :
    (s.take object count).2.Reads (c.take object count) ∧
      (s.take object count).2.remaining.2 = s.remaining.2 := by
  induction count generalizing s c with
  | zero => exact ⟨h, rfl⟩
  | succ n ih =>
    obtain ⟨h_property, h_next, h_end⟩ := h.next object
    rw [Stream.take, Cursor.take]
    rcases h_s : s.next object with ⟨property, s'⟩
    rcases h_c : c.next object with ⟨property', c'⟩
    rw [h_s, h_c] at h_property h_next
    rw [h_s] at h_end
    obtain rfl : property = property' := h_property
    cases property with
    | none => exact ⟨h_next, h_end⟩
    | some p =>
      obtain ⟨h_rest, h_behind⟩ := ih h_next
      exact ⟨h_rest, h_behind.trans h_end⟩

/-! ## Reachable streams -/

/-- A recorded error stays recorded. -/
theorem error_of_perform {s : Stream ι} {call : Call} (h : (s.perform call).2.error = none) :
    s.error = none := by
  by_contra h_error
  -- Every step starts from a stream without an error, or records one more.
  have h_invariant : Invariant fun s : Stream ι => s.error ≠ none :=
    ⟨fun h_run h_some => absurd h_run.1 h_some, fun cause _ => by simp [violate, record]⟩
  exact h_invariant.perform h_error call h

/-- As long as no error is recorded, a stream comes as far as the cursor with every call. -/
theorem Reads.perform {s : Stream ι} {c : Cursor} (h : s.Reads c) {call : Call}
    (h_ok : (s.perform call).2.error = none) :
    (s.perform call).2.Reads (c.perform call) ∧
      (s.perform call).2.remaining.2 = s.remaining.2 := by
  -- Looking at a property changes the stream by recording an error only.
  have h_question (h_call : call.isQuestion = true) : (s.perform call).2 = s := by
    rw [(perform_question h_call s).1, h_ok, ← error_of_perform h_ok]
  cases call with
  | next object => exact (h.next object).2
  | take object count => exact h.take object count
  | walk object | readFields object => exact h.walk object
  | load =>
    show s.load.2.Reads (c.leave rootId) ∧ s.load.2.remaining.2 = _
    rw [load_snd]
    exact h.walk rootId
  | value | inner | parse | choose | check =>
    rw [h_question rfl]
    exact ⟨h, rfl⟩

theorem error_of_performAll {s : Stream ι} {calls : List Call}
    (h : (s.performAll calls).2.error = none) : s.error = none := by
  induction calls generalizing s with
  | nil => exact h
  | cons call calls ih => exact error_of_perform (ih h)

theorem Reads.performCalls {s : Stream ι} {c : Cursor} (h : s.Reads c) {calls : List Call}
    (h_ok : (s.performAll calls).2.error = none) :
    (s.performAll calls).2.Reads (c.performAll calls) ∧
      (s.performAll calls).2.remaining.2 = s.remaining.2 := by
  induction calls generalizing s c with
  | nil => exact ⟨h, rfl⟩
  | cons call calls ih =>
    rw [performAll_cons] at h_ok ⊢
    obtain ⟨h_call, h_end⟩ := h.perform (error_of_performAll h_ok)
    obtain ⟨h_calls, h_behind⟩ := ih h_call h_ok
    exact ⟨h_calls, h_behind.trans h_end⟩

/-! ## Reading a tree from anywhere -/

/-- Of an open object its properties are read that have not been handed out, and it is closed
then: the object around it goes on behind it.  If an error comes first, it is the document's. -/
theorem Leads.readFields {s : Stream ι} {inner outer : Cursor} {o : OpenObject}
    (h : s.Leads (inner ++ o :: outer)) :
    (s.readFields o.number).1 = o.rest.decoded ∧ (s.readFields o.number).2.Reads outer ∧
      (s.readFields o.number).2.remaining.2 = s.remaining.2 := by
  obtain ⟨h_events, h_reads⟩ := h.walk
  refine ⟨?_, h_reads⟩
  show Fields.ofEvents ((s.walk o.number).1.map Event.decoded) = _
  rw [h_events, Tree.ofEvents_events]

theorem readFields_of_next_none {s : Stream ι} {object : ObjectId}
    (h : s.next object = (none, s)) : s.readFields object = ([], s) := by
  rw [readFields, walk_of_next_none h]
  rfl

theorem readFields_of_error {s : Stream ι} (h : s.error ≠ none) (object : ObjectId) :
    s.readFields object = ([], s) :=
  readFields_of_next_none (next_of_error h object)

/-- Behind an error nothing is loaded. -/
theorem load_eq_of_error {s : Stream ι} {e : Error} (h : s.error = some e) :
    s.load = (.error e, s) := by
  have h_none := readFields_of_error (s := s) (by simp [h]) rootId
  rw [load_of_error (by rw [h_none]; exact h), h_none]

/-- The object of a property that holds a text has no properties, and asking for it is an
error. -/
theorem readFields_inner_of_text {s : Stream ι} (h : s.error = none) {p : Property}
    (h_text : p.isObject = false) :
    (s.inner p).2.readFields (s.inner p).1 = ([], (s.inner p).2) := by
  apply readFields_of_error
  obtain ⟨name, value | object⟩ := p
  · simp [Stream.inner, violate, record, h]
  · cases h_text

/-- Where reading a document stops, a load of it gives the error, or its tree. -/
theorem load_of_stopped {start s : Stream ι} {t : Tree} (h_run : start.Running)
    (h_path : start.path = [rootId]) (h_events : t.events = start.readable)
    (h_end : s.remaining.2 = start.remaining.2) (h_stop : ¬s.Running) :
    (s.error = none → start.load.1 = .ok t.decoded) ∧
      ∀ e, s.error = some e → start.load.1 = .error e := by
  have h_same : start.remaining.2 = s := by rw [← h_end, remaining_of_stopped h_stop]
  rw [load_eq_remaining h_run h_path, h_same]
  constructor
  · intro h_none
    rw [readable_eq_remaining h_run (by simp [h_path]) (h_same ▸ h_none)] at h_events
    rw [h_none, ← h_events, Tree.ofEvents_events]
  · intro e h_error
    rw [h_error]

/-- What can be read of a document, up to its end or to its first error, is a tree `t`: a walk
sees its events, and asked property by property, objects hand out its properties.  Wherever a
reader has come without an error, an object that is not open has nothing more, and nothing is
read for it; nor for the object of a property that has none.  Of an open object `o`, its
properties that have not been handed out are read, and whatever is open inside it is skipped.
Unless there is an error, the object is closed then, and the object around it goes on with what
follows it.  An error is that of the document, and a load gives it. -/
theorem readFields_midway {σ : Type} [Source σ] (source : σ) (options : ReaderOptions) :
    let start := ofSource source options
    ∃ t : Tree, t.events = (start.walk rootId).1 ∧
      (∀ f, Fields.ofSource source options = .ok f → t.decoded = f) ∧
      (∀ requests : List Request, (start.performAll (requests.map Request.call)).1 =
        (Cursor.start t).answers requests) ∧
      ∀ calls : List Call,
        let s := (start.performAll calls).2
        let c := (Cursor.start t).performAll calls
        s.error = none →
        (∀ object, ¬c.IsOpen object → s.readFields object = ([], s)) ∧
        (∀ p, p.isObject = false →
          (s.inner p).2.readFields (s.inner p).1 = ([], (s.inner p).2)) ∧
        ∀ inner o outer, c = inner ++ o :: outer →
          let s' := (s.readFields o.number).2
          (s.readFields o.number).1 = o.rest.decoded ∧
          (s'.error = none → s'.next o.number = (none, s') ∧
            (outer = [] → start.load.1 = .ok t.decoded) ∧
            ∀ around further, outer = around :: further →
              (s'.next around.number).1 = (Cursor.read outer).1 ∧
              ∃ name place, around.body.drop place = .object name o.body around.rest) ∧
          ∀ e, s'.error = some e → start.load.1 = .error e ∧ s'.load = (.error e, s') ∧
            (o.number = rootId → s.load = (.error e, s')) := by
  intro start
  obtain ⟨t, h_events, h_start⟩ := exists_readable (s := start) ⟨rfl, rfl⟩ rfl rfl
  have h_leads := h_start.resolve_right fun h => h.stopped ⟨rfl, rfl⟩
  have h_whole : (start.readFields rootId).1 = t.decoded := by
    have h_inside : start.Leads ([] ++ Cursor.start t) := h_leads
    have h_root := h_inside.readFields.1
    rwa [OpenObject.rest, Tree.drop] at h_root
  refine ⟨t, ?_, ?_, fun requests => (h_start.performAll requests).1, ?_⟩
  · have h_walk := walkOnto_eq_remaining start [] ⟨rfl, rfl⟩ (List.cons_ne_nil _ _)
    exact h_events.trans (congrArg Prod.fst h_walk).symm
  · intro f h_load
    rw [← h_whole, readFields_of_load h_load]
  · intro calls s c h_ok
    obtain ⟨h_reads, h_end⟩ := h_start.performCalls h_ok
    refine ⟨fun object h_closed => readFields_of_next_none (h_reads.next_of_not_isOpen h_closed),
      fun p h_text => readFields_inner_of_text h_ok h_text, ?_⟩
    intro inner o outer h_c s'
    have h_leads : s.Leads (inner ++ o :: outer) :=
      h_c ▸ h_reads.resolve_right fun h => by
        have h_nil := (h.nil_of_ok h_ok).symm.trans h_c
        simp at h_nil
    obtain ⟨h_fields, h_behind, h_rest⟩ := h_leads.readFields
    -- What was read before and the read itself end where a load of the whole document ends.
    have h_load (h_stop : ¬s'.Running) :=
      load_of_stopped ⟨rfl, rfl⟩ rfl h_events (h_rest.trans h_end) h_stop
    refine ⟨h_fields, fun h_none => ⟨?_, ?_, ?_⟩, fun e h_error => ⟨?_, load_eq_of_error h_error, ?_⟩⟩
    · exact h_behind.next_of_not_isOpen h_leads.numbered.not_isOpen_outer
    · rintro rfl
      have h_ended := h_behind.resolve_left fun h => h.nonempty rfl
      exact (h_load h_ended.stopped).1 h_none
    · rintro around further rfl
      have h_nested : Cursor.Nested (inner ++ o :: around :: further) :=
        h_c ▸ Cursor.Nested.performAll (c := .start t) trivial calls
      obtain ⟨name, place, -, h_place⟩ := h_nested.of_append.1
      refine ⟨?_, name, place, h_place⟩
      rw [(h_behind.next around.number).1, Cursor.next_of_isOpen (by simp [Cursor.IsOpen])]
      simp
    · exact (h_load fun h_run => by simp [h_run.1] at h_error).2 e h_error
    · intro h_root
      have h_same : (s.readFields rootId).2 = s' := by rw [← h_root]
      rw [load_of_error (h_same ▸ h_error), h_same]

/-- In `a{b:1 c{d:2 e:3}f{}g:4}h:5` the object `a` is read when `c` is being read, and in
`a{b:1 c{d:2 ,` when its first property has been handed out. -/
theorem readFields_midway_inside :
    let source : Slice := { rest := Utf8.encode "a\x7bb:1 c\x7bd:2 e:3\x7df\x7b\x7dg:4\x7dh:5" }
    let broken : Slice := { rest := Utf8.encode "a\x7bb:1 c\x7bd:2 ," }
    let s := ((ofSource source {}).performAll [.next 0, .next 1, .next 1, .next 2]).2
    let r := ((ofSource broken {}).performAll [.next 0, .next 1]).2
    ((s.readFields 1).1 = [("f", .object []), ("g", .text "4")] ∧
        ((s.readFields 1).2.next 0).1 = some ⟨Utf8.encode "h", .text (Utf8.encode "5")⟩ ∧
        s.readFields 3 = ([], s)) ∧
      (r.readFields 1).1 = [("c", .object [("d", .text "2")])] ∧
      (ofSource broken {}).load.1 = .error (.malformed 1 .strayByte) := by
  intro source broken s r
  let raw := Utf8.encode
  let inner : Tree := .field (raw "d") (raw "2") (.field (raw "e") (raw "3") .empty)
  let body : Tree := .field (raw "b") (raw "1") (.object (raw "c") inner
    (.object (raw "f") .empty (.field (raw "g") (raw "4") .empty)))
  let whole : Tree := .object (raw "a") body (.field (raw "h") (raw "5") .empty)
  let brokenBody : Tree := .field (raw "b") (raw "1")
    (.object (raw "c") (.field (raw "d") (raw "2") .empty) .empty)
  refine ⟨?_, ?_⟩
  · obtain ⟨t, h_events, -, -, h_calls⟩ := readFields_midway source {}
    obtain rfl : t = whole := Tree.events_injective (h_events.trans (by decide +kernel))
    obtain ⟨h_closed, -, h_open⟩ :=
      h_calls [.next 0, .next 1, .next 1, .next 2] (by decide +kernel)
    obtain ⟨h_fields, h_rest, -⟩ := h_open [⟨2, inner, 1⟩] ⟨1, body, 2⟩ [⟨0, whole, 1⟩] rfl
    obtain ⟨-, -, h_around⟩ := h_rest (by decide +kernel)
    refine ⟨h_fields.trans (by decide +kernel), (h_around _ [] rfl).1, h_closed 3 ?_⟩
    decide +kernel
  · obtain ⟨t, h_events, -, -, h_calls⟩ := readFields_midway broken {}
    obtain rfl : t = .object (raw "a") brokenBody .empty :=
      Tree.events_injective (h_events.trans (by decide +kernel))
    obtain ⟨-, -, h_open⟩ := h_calls [.next 0, .next 1] (by decide +kernel)
    obtain ⟨h_fields, -, h_error⟩ := h_open [] ⟨1, brokenBody, 1⟩
      [⟨0, .object (raw "a") brokenBody .empty, 1⟩] rfl
    exact ⟨h_fields.trans (by decide +kernel), (h_error _ (by decide +kernel)).1⟩

end Stream
end PropertyText
