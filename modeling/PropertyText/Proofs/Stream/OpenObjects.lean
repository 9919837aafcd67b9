/-
  PropertyText.Proofs.Stream.OpenObjects

  The path of open objects.  A stream is led from its start by reading events and by recording
  violations (`Stream.Trail`), and all the way the path ascends from the document by the order
  in which objects open (`Stream.Ordered`).  So an object that has left the path never comes
  back, and a handle that has no more properties has none for good.  Main statement:
  `Stream.performAll_open_objects`.
-/
import PropertyText.Proofs.Stream.Invariant

namespace PropertyText

/-! ## Objects that open -/

namespace Event

variable {α : Type}

def isOpened : Event α → Bool
  | .opened _ => true
  | .field _ _ | .closed => false

/-- How many objects open. -/
def openings (events : List (Event α)) : Nat := events.countP isOpened

@[simp] theorem openings_nil : openings ([] : List (Event α)) = 0 := rfl

@[simp] theorem openings_append (a b : List (Event α)) :
    openings (a ++ b) = openings a + openings b := List.countP_append

@[simp] theorem openings_field (name value : α) : openings [.field name value] = 0 := rfl

@[simp] theorem openings_opened (name : α) : openings [.opened name] = 1 := rfl

@[simp] theorem openings_closed : openings [(.closed : Event α)] = 0 := rfl

end Event

namespace Stream

open Event (openings)

/-! ## How the open objects stand -/

section

variable {ι : Type} {s s' : Stream ι} {events : List (Event Bytes)}

/-- How the objects are open behind the events read since the start of a document.  They are
named by the order in which they open, innermost first, around all of them the document. -/
structure Ordered (events : List (Event Bytes)) (s : Stream ι) : Prop where
  outermost : s.path.getLast? = some rootId
  descending : s.path.Pairwise (· > ·)
  below : ∀ object ∈ s.path, object < s.nextId
  named : s.nextId = rootId + 1 + openings events
  depth : s.path.length + events.count .closed = 1 + openings events
  finished : s.finished = true → s.path = [rootId]

theorem ordered_ofInput (input : ι) (comments : Bool) : Ordered [] (ofInput input comments) where
  outermost := rfl
  descending := List.pairwise_singleton _ _
  below := by simp [ofInput, rootId]
  named := rfl
  depth := rfl
  finished := fun _ => rfl

namespace Ordered

/-- The document alone is open where nothing is open inside it. -/
theorem path_of_atTop (h : Ordered events s) (h_top : s.atTop = true) : s.path = [rootId] := by
  cases h_path : s.path with
  | nil => simpa [h_path] using h.outermost
  | cons top outer =>
    obtain rfl : outer = [] := by simpa [atTop, h_path] using h_top
    simpa [h_path] using h.outermost

theorem step (h : Ordered events s) (h_run : s.Running) {property : Option Property}
    {event : Option (Event Bytes)} (h_step : Step s property event s') :
    Ordered (events ++ event.toList) s' := by
  have h_named := h.named
  have h_depth := h.depth
  have h_open : s.finished = true → False := by simp [h_run.2]
  cases h_step with
  | text name value input =>
    exact ⟨h.outermost, h.descending, h.below, h_named.trans (by simp), by simpa using h_depth,
      h.finished⟩
  | opened name input =>
    refine ⟨?_, List.pairwise_cons.mpr ⟨h.below, h.descending⟩, ?_, ?_, ?_, ?_⟩
    · simp [openObject, behind, List.getLast?_cons, h.outermost]
    · intro object h_mem
      rcases List.mem_cons.mp h_mem with rfl | h_outer
      · exact Nat.lt_succ_self _
      · exact Nat.lt_succ_of_lt (h.below object h_outer)
    · simp [openObject, behind, h_named, Nat.add_assoc]
    · simp [openObject]
      omega
    · intro h_end
      exact (h_open h_end).elim
  | closed input h_top =>
    obtain ⟨h_outermost, h_descending, h_below, -, -, -⟩ := h
    cases h_path : s.path with
    | nil => simp [atTop, h_path] at h_top
    | cons top outer =>
      have h_outer : outer ≠ [] := by simpa [atTop, h_path] using h_top
      have h_tail : (s.behind input).close.path = outer := by simp [close, h_path]
      rw [h_path] at h_outermost h_descending h_below h_depth
      refine ⟨?_, ?_, ?_, h_named.trans (by simp), ?_, ?_⟩
      · rwa [h_tail, ← List.getLast?_cons_of_ne_nil h_outer]
      · exact h_tail ▸ h_descending.tail
      · intro object h_mem
        exact h_below object (List.mem_cons_of_mem _ (h_tail ▸ h_mem))
      · rw [h_tail]
        simp at h_depth ⊢
        omega
      · intro h_end
        exact (h_open h_end).elim
  | finished input h_top =>
    exact ⟨h.outermost, h.descending, h.below, h_named.trans (by simp), by simpa using h_depth,
      fun _ => h.path_of_atTop h_top⟩
  | failed input e =>
    exact ⟨h.outermost, h.descending, h.below, h_named.trans (by simp),
      by simpa [failedAt] using h_depth, h.finished⟩

end Ordered
end

/-! ## From one stream to a later one -/

variable {ι : Type} [Input ι] {s s' : Stream ι} {events before : List (Event Bytes)}
  {object : ObjectId}

/-- From one stream to a later one some events are read, wherever the caller has asked for them.
Whatever else is done records violations. -/
inductive Trail (s : Stream ι) : List (Event Bytes) → Stream ι → Prop
  | start : Trail s [] s
  | read {events : List (Event Bytes)} {s₁ s₂ : Stream ι} {event : Option (Event Bytes)} :
      Trail s events s₁ → s₁.Running → s₁.readEvent = (event, s₂) →
      Trail s (events ++ event.toList) s₂
  | violate {events : List (Event Bytes)} {s₁ : Stream ι} (cause : Violation) :
      Trail s events s₁ → Trail s events (s₁.violate cause)

/-- An event is read in one of the five steps. -/
theorem step_of_readEvent {event : Option (Event Bytes)} (h_run : s.Running)
    (h_event : s.readEvent = (event, s')) :
    ∃ property, s.readProperty = (property, s') ∧ Step s property event s' := by
  obtain ⟨property, event', s₁, h_read, h_event', h_step⟩ := step_cases h_run
  obtain ⟨rfl, rfl⟩ := Prod.mk.inj (h_event'.symm.trans h_event)
  exact ⟨property, h_read, h_step⟩

namespace Trail

theorem invariant (s : Stream ι) : Invariant fun s' => ∃ events, Trail s events s' where
  read := by
    rintro s₁ h_run ⟨events, h⟩
    obtain ⟨property, event, s₂, h_read, h_event, -⟩ := step_cases h_run
    rw [h_read]
    exact ⟨_, h.read h_run h_event⟩
  violate := by
    rintro s₁ cause ⟨events, h⟩
    exact ⟨events, h.violate cause⟩

/-- Whatever is requested of a stream leads it on. -/
theorem performAll (s : Stream ι) (calls : List Call) :
    ∃ events, Trail s events (s.performAll calls).2 :=
  (invariant s).performAll ⟨[], .start⟩ calls

theorem next (s : Stream ι) (object : ObjectId) : ∃ events, Trail s events (s.next object).2 :=
  (invariant s).next ⟨[], .start⟩ object

/-- Every object that opens is given a new name. -/
theorem nextId_eq (h : Trail s events s') : s'.nextId = s.nextId + openings events := by
  induction h with
  | start => rfl
  | read h h_run h_event ih =>
    obtain ⟨property, -, h_step⟩ := step_of_readEvent h_run h_event
    cases h_step with
    | text | closed | finished | failed => exact ih.trans (by simp)
    | opened name input =>
      rw [Option.toList_some, Event.openings_append, Event.openings_opened, ← Nat.add_assoc, ← ih]
      rfl
  | violate cause h ih => exact ih

theorem nextId_le (h : Trail s events s') : s.nextId ≤ s'.nextId :=
  h.nextId_eq ▸ Nat.le_add_right _ _

/-- An object that is open later was open before, or its name is new. -/
theorem mem_path (h : Trail s events s') (h_mem : object ∈ s'.path) :
    object ∈ s.path ∨ s.nextId ≤ object := by
  induction h with
  | start => exact Or.inl h_mem
  | read h h_run h_event ih =>
    obtain ⟨property, -, h_step⟩ := step_of_readEvent h_run h_event
    cases h_step with
    | text | finished | failed => exact ih h_mem
    | opened name input =>
      rcases List.mem_cons.mp h_mem with rfl | h_outer
      · exact Or.inr h.nextId_le
      · exact ih h_outer
    | closed input h_top => exact ih (List.mem_of_mem_tail h_mem)
  | violate cause h ih => exact ih h_mem

theorem ordered (h : Trail s events s') (h_s : Ordered before s) :
    Ordered (before ++ events) s' := by
  induction h with
  | start => simpa using h_s
  | read h h_run h_event ih =>
    obtain ⟨property, -, h_step⟩ := step_of_readEvent h_run h_event
    simpa using ih.step h_run h_step
  | violate cause h ih =>
    exact ⟨ih.outermost, ih.descending, ih.below, ih.named, ih.depth, ih.finished⟩

/-- What every step keeps holds all the way. -/
theorem keeps {P : Stream ι → Prop} (h : Trail s events s') (h_P : Invariant P) (h_s : P s) :
    P s' := by
  induction h with
  | start => exact h_s
  | read h h_run h_event ih =>
    obtain ⟨property, h_read, -⟩ := step_of_readEvent h_run h_event
    have h_next := h_P.read h_run ih
    rwa [h_read] at h_next
  | violate cause h ih => exact h_P.violate cause ih

/-- A stream that has stopped does not go on. -/
theorem stopped (h : Trail s events s') (h_stop : ¬s.Running) : ¬s'.Running := by
  refine h.keeps (P := fun s => ¬s.Running) ⟨?_, ?_⟩ h_stop
  · exact fun h_run h_not => absurd h_run h_not
  · exact fun cause _ => not_running_violate _ cause

end Trail

/-! ## Handles without properties -/

/-- An object has no property where nothing is read any more, and where it is not open.  Asking it
leaves the stream as it is. -/
theorem next_of_not_open (h : ¬s.Running ∨ object ∉ s.path) : s.next object = (none, s) := by
  unfold next
  rw [if_pos]
  rcases h with h_stop | h_path
  · by_cases h_error : s.error = none
    · have h_end : s.finished ≠ false := fun h_end => h_stop ⟨h_error, h_end⟩
      simp [h_end]
    · simp [Option.isSome_iff_ne_none, h_error]
  · simp [h_path]

/-- Skipping does not close the object for which it is done. -/
theorem head_skipTo (h_run : s.Running) (h_s : Ordered before s) (h_mem : object ∈ s.path) :
    (s.skipTo object).error ≠ none ∨ ∃ outer, (s.skipTo object).path = object :: outer := by
  induction s using step_induction generalizing before with
  | h_stopped s h_stop => exact absurd h_run h_stop
  | h_step s _ ih =>
    obtain ⟨top, outer, h_path⟩ := List.exists_cons_of_ne_nil (List.ne_nil_of_mem h_mem)
    by_cases h_top : top = object
    · rw [skipTo_of_top s (h_top ▸ h_path)]
      exact Or.inr ⟨outer, h_top ▸ h_path⟩
    · have h_outer : object ∈ outer := by
        rw [h_path] at h_mem
        exact (List.mem_cons.mp h_mem).resolve_left (Ne.symm h_top)
      have h_inside : s.atTop = false := by
        simpa [atTop, h_path] using List.ne_nil_of_mem h_outer
      obtain ⟨property, event, s', h_read, -, h_step⟩ := step_cases h_run
      have h_behind := h_s.step h_run h_step
      rw [skipTo_of_ne s h_path h_top h_inside]
      rw [h_read] at ih ⊢
      have h_none : s.error = none := h_run.1
      -- Only the innermost object closes in a step, and the wanted one stands around it.
      cases h_step with
      | failed input e => exact Or.inl (by simp [failedAt])
      | finished input h_end => rw [h_end] at h_inside; cases h_inside
      | text | opened | closed =>
        rw [if_neg (by simp [openObject, close, h_none])]
        refine ih h_run h_behind ?_
        simp [openObject, close, behind, h_path, h_outer]

/-- The object that is asked is innermost where a property is read of it, and otherwise there
is none. -/
theorem next_ordered (h_s : Ordered before s) (object : ObjectId) :
    (s.next object).1 = none ∧ (¬(s.next object).2.Running ∨ object ∉ (s.next object).2.path) ∨
      ∃ skipped s₁ outer, Trail s skipped s₁ ∧ s₁.Running ∧ s₁.path = object :: outer ∧
        s.next object = s₁.readProperty := by
  by_cases h_open : ¬s.Running ∨ object ∉ s.path
  · rw [next_of_not_open h_open]
    exact Or.inl ⟨rfl, h_open⟩
  obtain ⟨h_run, h_mem⟩ : s.Running ∧ object ∈ s.path := by simpa using h_open
  obtain ⟨⟨skipped, h_trail⟩, h_going⟩ :=
    (Trail.invariant s).skipTo h_run ⟨[], .start⟩ object
  rw [next, if_neg (by simp [h_run.1, h_run.2, h_mem])]
  dsimp only
  by_cases h_error : (s.skipTo object).error = none
  · rw [if_neg (by simp [h_error])]
    obtain ⟨outer, h_path⟩ := (head_skipTo h_run h_s h_mem).resolve_left (by simp [h_error])
    exact Or.inr ⟨skipped, _, outer, h_trail, h_going h_error, h_path, rfl⟩
  · rw [if_pos (by simpa [Option.isSome_iff_ne_none] using h_error)]
    exact Or.inl ⟨rfl, Or.inl fun h_run' => h_error h_run'.1⟩

/-- An object that has no further property is not open any more, unless nothing is read. -/
theorem not_open_of_next_none (h_s : Ordered before s) (h_none : (s.next object).1 = none) :
    ¬(s.next object).2.Running ∨ object ∉ (s.next object).2.path := by
  rcases next_ordered h_s object with ⟨-, h_open⟩ |
    ⟨skipped, s₁, outer, h_trail, h_run, h_path, h_next⟩
  · exact h_open
  obtain ⟨property, event, s', h_read, -, h_step⟩ := step_cases h_run
  rw [h_next, h_read] at h_none ⊢
  cases h_step with
  | text | opened => cases h_none
  | closed input h_top =>
    -- No object stands around itself.
    have h_descending := (h_trail.ordered h_s).descending
    rw [h_path] at h_descending
    refine Or.inr fun h_mem => Nat.lt_irrefl object ?_
    exact (List.pairwise_cons.mp h_descending).1 object (by simpa [close, h_path] using h_mem)
  | finished input h_top => exact Or.inl (by simp [Running])
  | failed input e => exact Or.inl (by simp [Running, failedAt])

/-- Where an object has no further property it has none for good, if no later object can be
named as it is.  Nothing is read when it is asked. -/
theorem next_of_next_none (h_s : Ordered before s) (h_none : (s.next object).1 = none)
    (h : Trail (s.next object).2 events s')
    (h_old : object < (s.next object).2.nextId ∨ s'.nextId ≤ object) :
    s'.next object = (none, s') := by
  obtain ⟨asked, h_asked⟩ := Trail.next s object
  apply next_of_not_open
  rcases not_open_of_next_none h_s h_none with h_stop | h_closed
  · exact Or.inl (h.stopped h_stop)
  · right
    intro h_mem
    have h_below := (h.ordered (h_asked.ordered h_s)).below object h_mem
    have h_new := (h.mem_path h_mem).resolve_left h_closed
    rcases h_old with h_lt | h_le
    · exact Nat.not_le_of_lt h_lt h_new
    · exact Nat.not_lt_of_le h_le h_below

/-! ### Handles -/

/-- The properties that an answer hands out. -/
def Answer.handedOut : Answer → List Property
  | .property p => p.toList
  | .properties ps => ps
  | _ => []

/-- What a caller can ask for properties when some answers have been given: the document, the
objects of the properties that were handed out, and the object of a property that has none. -/
def Handle (answers : List Answer) (object : ObjectId) : Prop :=
  object = rootId ∨ object = detachedId ∨
    ∃ answer ∈ answers, ∃ p ∈ answer.handedOut, p.content = .object object

section

variable {p : Property} (h_p : p.content = .object object)
include h_p

theorem lt_nextId_of_next {outer : ObjectId} (h : s.next outer = (some p, s')) :
    object < s'.nextId := by
  have h_any : Invariant fun _ : Stream ι => True := ⟨fun _ _ => trivial, fun _ _ => trivial⟩
  rcases h_any.next_cases (s := s) trivial outer with ⟨s₁, -, h_none⟩ | ⟨s₁, -, h_run, h_read⟩
  · rw [h] at h_none
    cases h_none
  · obtain ⟨property, event, s₂, h_behind, -, h_step⟩ := step_cases h_run
    obtain ⟨rfl, rfl⟩ := Prod.mk.inj (h_behind.symm.trans (h_read.symm.trans h))
    cases h_step with
    | text => cases h_p
    | opened name input =>
      obtain rfl := Content.object.inj h_p
      exact Nat.lt_succ_self _

theorem lt_nextId_of_take {outer : ObjectId} {count : Nat} (h : p ∈ (s.take outer count).1) :
    object < (s.take outer count).2.nextId := by
  induction count generalizing s with
  | zero => cases h
  | succ count ih =>
    rw [Stream.take] at h ⊢
    rcases h_next : s.next outer with ⟨_ | first, s₁⟩
    · rw [h_next] at h
      cases h
    · rw [h_next] at h
      rcases List.mem_cons.mp h with rfl | h_rest
      · obtain ⟨events, h_trail⟩ := (Trail.invariant s₁).take ⟨[], .start⟩ outer count
        exact Nat.lt_of_lt_of_le (lt_nextId_of_next h_p h_next) h_trail.nextId_le
      · exact ih h_rest

theorem lt_nextId_of_performAll {calls : List Call} {answer : Answer}
    (h_answer : answer ∈ (s.performAll calls).1) (h_mem : p ∈ answer.handedOut) :
    object < (s.performAll calls).2.nextId := by
  induction calls generalizing s with
  | nil => cases h_answer
  | cons call calls ih =>
    rw [performAll_cons] at h_answer ⊢
    rcases List.mem_cons.mp h_answer with rfl | h_later
    · obtain ⟨events, h_trail⟩ := Trail.performAll (s.perform call).2 calls
      refine Nat.lt_of_lt_of_le ?_ h_trail.nextId_le
      cases call with
      | next outer =>
        exact lt_nextId_of_next h_p (Prod.ext (Option.mem_toList.mp h_mem) rfl)
      | take outer count => exact lt_nextId_of_take h_p h_mem
      | walk | readFields | load | value | inner | parse | choose | check => cases h_mem
    · exact ih h_later

end

/-- Whatever is requested of a stream, and also in the midst of a request, the open objects are
the document and, ascending by name, those inside it; there are as many of them as have opened
and not closed, and none at the end of the document.  Fewer than `2 ^ 64 - 2` objects do not use
up the names.  An object that has left the path does not come back to it, and a handle that has
once had no further property never has one again; asking it then leaves the stream as it is. -/
theorem performAll_open_objects (input : ι) (comments : Bool) :
    let start := ofInput input comments
    (∀ calls, ∃ events, Trail start events (start.performAll calls).2) ∧
    (∀ events s, Trail start events s →
      Ordered events s ∧
      (openings events < UInt64.size - 2 →
        s.nextId < detachedId ∧ ∀ object ∈ s.path, object < detachedId) ∧
      ∀ object < s.nextId, object ∉ s.path →
        ∀ later s', Trail s later s' → object ∉ s'.path) ∧
    ∀ calls object, Handle (start.performAll calls).1 object →
      let asked := (start.performAll calls).2.next object
      asked.1 = none → ∀ more events, Trail start events (asked.2.performAll more).2 →
        openings events < UInt64.size - 2 →
          (asked.2.performAll more).2.next object = (none, (asked.2.performAll more).2) := by
  intro start
  have h_start : Ordered [] start := ordered_ofInput input comments
  have h_names : ∀ {events s}, Trail start events s → openings events < UInt64.size - 2 →
      s.nextId < detachedId := by
    intro events s h_trail h_few
    rw [(h_trail.ordered h_start).named]
    change 0 + 1 + openings events < UInt64.size - 1
    omega
  refine ⟨Trail.performAll start, fun events s h_trail => ?_, ?_⟩
  · have h_ordered : Ordered events s := h_trail.ordered h_start
    refine ⟨h_ordered, fun h_few => ?_, fun object h_old h_left later s' h_later h_mem => ?_⟩
    · have h_id := h_names h_trail h_few
      exact ⟨h_id, fun object h_mem => Nat.lt_trans (h_ordered.below object h_mem) h_id⟩
    · exact (h_later.mem_path h_mem).elim h_left (Nat.not_le_of_lt h_old)
  · intro calls object h_handle asked h_none more events h_trail h_few
    obtain ⟨before, h_before⟩ := Trail.performAll start calls
    obtain ⟨asking, h_asked⟩ := Trail.next (start.performAll calls).2 object
    obtain ⟨later, h_later⟩ := Trail.performAll asked.2 more
    have h_ordered := h_before.ordered h_start
    refine next_of_next_none h_ordered h_none h_later ?_
    have h_known : ∀ {id}, id < (start.performAll calls).2.nextId → id < asked.2.nextId :=
      fun h_lt => Nat.lt_of_lt_of_le h_lt h_asked.nextId_le
    -- The document and every object that was handed out are named already; the remaining name is
    -- given to no object as long as there are others.
    rcases h_handle with rfl | rfl | ⟨answer, h_answer, p, h_mem, h_p⟩
    · refine Or.inl (h_known ?_)
      rw [h_ordered.named, Nat.add_assoc]
      exact Nat.lt_add_of_pos_right (by omega)
    · exact Or.inr (Nat.le_of_lt (h_names h_trail h_few))
    · exact Or.inl (h_known (lt_nextId_of_performAll h_p h_answer h_mem))

/-- In `a{x:1}b{y:2}` the object `a` is skipped when the document is asked a second time.  It has
no property then, although one of it was never handed out, and whatever is requested after that
it has none. -/
theorem performAll_open_objects_skipped :
    let start := ofSource ({ rest := [0x61, 0x7b, 0x78, 0x3a, 0x31, 0x7d, 0x62, 0x7b, 0x79, 0x3a,
      0x32, 0x7d] } : Slice) {}
    let calls : List Call := [.next 0, .next 0]
    let asked := (start.performAll calls).2.next 1
    Handle (start.performAll calls).1 1 ∧ asked.1 = none ∧ asked.2.path = [2, 0] ∧
      ∀ more, (asked.2.performAll more).2.nextId < detachedId →
        (asked.2.performAll more).2.next 1 = (none, (asked.2.performAll more).2) := by
  intro start calls asked
  have h_first : (start.next 0).1 = some ⟨[0x61], .object 1⟩ := by decide +kernel
  have h_none : asked.1 = none := by decide +kernel
  have h_handle : Handle (start.performAll calls).1 1 := by
    refine Or.inr (Or.inr ⟨.property (start.next 0).1, List.mem_cons_self, ⟨[0x61], .object 1⟩, ?_,
      rfl⟩)
    rw [h_first]
    exact List.mem_cons_self
  refine ⟨h_handle, h_none, by decide +kernel, fun more h_few => ?_⟩
  have h_open := performAll_open_objects start.input false
  obtain ⟨events, h_trail⟩ : ∃ events, Trail start events (asked.2.performAll more).2 :=
    (Trail.invariant start).performAll ((Trail.invariant start).next (h_open.1 calls) 1) more
  have h_named := (h_open.2.1 events _ h_trail).1.named
  refine h_open.2.2 calls 1 h_handle h_none more events h_trail ?_
  rw [h_named] at h_few
  change 0 + 1 + openings events < UInt64.size - 1 at h_few
  omega

end Stream
end PropertyText
