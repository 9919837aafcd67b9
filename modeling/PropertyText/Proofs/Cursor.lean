/-
  PropertyText.Proofs.Cursor

  The place of a reader in a document, told by the tree alone: the open objects from the
  innermost to the document itself, each with the number of its properties that have been
  handed out.  An object that has been left or closed does not open again
  (`Cursor.not_isOpen_after`).
-/
import Mathlib.Data.List.TakeWhile
import PropertyText.Proofs.Tree
import PropertyText.Stream.Call

namespace PropertyText

/-! ## The properties of a tree by their places -/

namespace Tree

/-- The properties behind the first so many. -/
def drop : Tree → Nat → Tree
  | t, 0 => t
  | .empty, _ => .empty
  | .field _ _ rest, n + 1 => rest.drop n
  | .object _ _ rest, n + 1 => rest.drop n

/-- How many objects there are, at any depth, in the first so many properties. -/
def objectsBefore : Tree → Nat → Nat
  | _, 0 => 0
  | .empty, _ => 0
  | .field _ _ rest, n + 1 => rest.objectsBefore n
  | .object _ inner rest, n + 1 => 1 + inner.objectCount + rest.objectsBefore n

theorem drop_succ_of_field {t rest : Tree} {n : Nat} {name value : Bytes}
    (h : t.drop n = .field name value rest) :
    t.drop (n + 1) = rest ∧ t.objectsBefore (n + 1) = t.objectsBefore n := by
  induction n generalizing t with
  | zero =>
    simp only [drop] at h
    simp [h, drop, objectsBefore]
  | succ n ih =>
    cases t with
    | empty => simp [drop] at h
    | field _ _ t => exact ih h
    | object _ inner t => exact ⟨(ih h).1, congrArg (1 + inner.objectCount + ·) (ih h).2⟩

theorem drop_succ_of_object {t inner rest : Tree} {n : Nat} {name : Bytes}
    (h : t.drop n = .object name inner rest) :
    t.drop (n + 1) = rest ∧
      t.objectsBefore (n + 1) = t.objectsBefore n + (1 + inner.objectCount) := by
  induction n generalizing t with
  | zero =>
    simp only [drop] at h
    simp [h, drop, objectsBefore]
  | succ n ih =>
    cases t with
    | empty => simp [drop] at h
    | field _ _ t => exact ih h
    | object _ around t =>
      refine ⟨(ih h).1, ?_⟩
      have h_count := (ih h).2
      simp only [objectsBefore] at h_count ⊢
      omega

theorem objectsBefore_of_drop_empty {t : Tree} {n : Nat} (h : t.drop n = .empty) :
    t.objectsBefore n = t.objectCount := by
  induction n generalizing t with
  | zero =>
    simp only [drop] at h
    simp [h, objectsBefore, objectCount]
  | succ n ih =>
    cases t with
    | empty => rfl
    | field _ _ t => exact ih h
    | object _ inner t => exact congrArg (1 + inner.objectCount + ·) (ih h)

theorem objectsBefore_le (t : Tree) (n : Nat) : t.objectsBefore n ≤ t.objectCount := by
  induction n generalizing t with
  | zero =>
    rw [objectsBefore]
    exact Nat.zero_le _
  | succ n ih =>
    cases t with
    | empty => exact Nat.le_refl _
    | field _ _ rest => exact ih rest
    | object _ inner rest => exact Nat.add_le_add_left (ih rest) _

end Tree

/-! ## The cursor -/

/-- An open object of a document: its number, counted through the document in the order in
which objects open, its properties, and how many of them have been handed out. -/
structure OpenObject where
  number : Nat
  body : Tree
  returned : Nat := 0
  deriving DecidableEq, Repr

namespace OpenObject

/-- The properties that have not been handed out. -/
def rest (o : OpenObject) : Tree := o.body.drop o.returned

/-- The same object when one more property has been handed out. -/
def advance (o : OpenObject) : OpenObject := { o with returned := o.returned + 1 }

/-- The number of the next object that opens in this one. -/
def nextNumber (o : OpenObject) : Nat := o.number + 1 + o.body.objectsBefore o.returned

/-- The number of the next object that opens behind this one. -/
def numberBehind (o : OpenObject) : Nat := o.number + 1 + o.body.objectCount

@[simp] theorem number_advance (o : OpenObject) : o.advance.number = o.number := rfl

theorem number_lt_nextNumber (o : OpenObject) : o.number < o.nextNumber := by
  rw [nextNumber]
  omega

end OpenObject

/-- A request for the next property of an object, or for the object that a property holds. -/
inductive Request where
  | next (object : ObjectId)
  | enter (name : Bytes) (object : ObjectId)
  deriving DecidableEq, Repr

/-- The request as it is made of a stream. -/
def Request.call : Request → Stream.Call
  | .next object => .next object
  | .enter name object => .inner ⟨name, .object object⟩

/-- The open objects of a document, innermost first. -/
abbrev Cursor := List OpenObject

namespace Cursor

/-- A document of which nothing has been handed out. -/
def start (t : Tree) : Cursor := [{ number := rootId, body := t }]

/-- Hands out the next property of the innermost object.  An object that is handed out is
open from then on, and an object without a further property is closed. -/
def read : Cursor → Option Property × Cursor
  | [] => (none, [])
  | o :: outer =>
    match o.rest with
    | .empty => (none, outer)
    | .field name value _ => (some ⟨name, .text value⟩, o.advance :: outer)
    | .object name inner _ =>
      (some ⟨name, .object o.nextNumber⟩, ⟨o.nextNumber, inner, 0⟩ :: o.advance :: outer)

section

variable {o : OpenObject} {outer : Cursor} {name : Bytes}

theorem read_of_empty (h : o.rest = .empty) : read (o :: outer) = (none, outer) := by
  simp [read, h]

theorem read_of_field {value : Bytes} {rest : Tree} (h : o.rest = .field name value rest) :
    read (o :: outer) = (some ⟨name, .text value⟩, o.advance :: outer) := by
  simp [read, h]

theorem read_of_object {inner rest : Tree} (h : o.rest = .object name inner rest) :
    read (o :: outer) =
      (some ⟨name, .object o.nextNumber⟩, ⟨o.nextNumber, inner, 0⟩ :: o.advance :: outer) := by
  simp [read, h]

end

/-- Hands out the next property of the object with a number.  The objects open inside it
are left; if it is not open, nothing happens. -/
def next (c : Cursor) (number : Nat) : Option Property × Cursor :=
  match c.dropWhile (·.number != number) with
  | [] => (none, c)
  | found => read found

/-- Answers a request.  The object that a property holds is known by its number, which may
be asked for at any time. -/
def answer (c : Cursor) : Request → Stream.Answer × Cursor
  | .next object => (c.next object).map .property id
  | .enter _ object => (.object object, c)

/-- The answers to a sequence of requests. -/
def answers (c : Cursor) : List Request → List Stream.Answer
  | [] => []
  | request :: requests => (c.answer request).1 :: (c.answer request).2.answers requests

/-- The cursor behind a sequence of requests. -/
def after (c : Cursor) : List Request → Cursor
  | [] => c
  | request :: requests => (c.answer request).2.after requests

/-- Whether the object with a number is open. -/
def IsOpen (c : Cursor) (number : Nat) : Prop := number ∈ c.map OpenObject.number

instance (c : Cursor) (number : Nat) : Decidable (c.IsOpen number) := by
  unfold IsOpen
  infer_instance

/-- The events that are still ahead of a cursor. -/
def ahead : Cursor → List (Event Bytes)
  | [] => []
  | [o] => o.rest.events
  | o :: around :: outer => o.rest.events ++ .closed :: ahead (around :: outer)

theorem ahead_cons (o : OpenObject) (outer : Cursor) :
    ahead (o :: outer) =
      o.rest.events ++ if outer.isEmpty then [] else .closed :: ahead outer := by
  cases outer <;> simp [ahead]

/-- Objects bear the numbers in which they open, the next one being given. -/
def Numbered (nextId : Nat) : Cursor → Prop
  | [] => True
  | o :: outer => nextId = o.nextNumber ∧ (∀ around ∈ outer, around.number < o.number) ∧
      Numbered o.numberBehind outer

section

variable {nextId : Nat} {o : OpenObject} {outer : Cursor} {name : Bytes}

theorem Numbered.read_of_empty (h : Numbered nextId (o :: outer)) (h_rest : o.rest = .empty) :
    Numbered nextId outer := by
  obtain ⟨h_next, -, h_behind⟩ := h
  have h_same : o.nextNumber = o.numberBehind := by
    rw [OpenObject.nextNumber, Tree.objectsBefore_of_drop_empty h_rest]
    rfl
  rwa [← h_same, ← h_next] at h_behind

theorem Numbered.read_of_field (h : Numbered nextId (o :: outer)) {value : Bytes} {rest : Tree}
    (h_rest : o.rest = .field name value rest) : Numbered nextId (o.advance :: outer) := by
  obtain ⟨h_next, h_lt, h_behind⟩ := h
  refine ⟨?_, h_lt, h_behind⟩
  rw [OpenObject.nextNumber, OpenObject.advance, (Tree.drop_succ_of_field h_rest).2]
  exact h_next

theorem Numbered.read_of_object (h : Numbered nextId (o :: outer)) {inner rest : Tree}
    (h_rest : o.rest = .object name inner rest) :
    Numbered (nextId + 1) (⟨o.nextNumber, inner, 0⟩ :: o.advance :: outer) := by
  obtain ⟨h_next, h_lt, h_behind⟩ := h
  refine ⟨?_, ?_, ?_, h_lt, h_behind⟩
  · simp [h_next, OpenObject.nextNumber, Tree.objectsBefore]
  · intro around h_mem
    rcases List.mem_cons.mp h_mem with rfl | h_mem
    · exact o.number_lt_nextNumber
    · exact Nat.lt_trans (h_lt around h_mem) o.number_lt_nextNumber
  · simp only [OpenObject.nextNumber, OpenObject.numberBehind, OpenObject.advance,
      (Tree.drop_succ_of_object h_rest).2]
    omega

theorem Numbered.lt_of_isOpen {c : Cursor} (h : c.Numbered nextId) {number : Nat}
    (h_open : c.IsOpen number) : number < nextId := by
  cases c with
  | nil => cases h_open
  | cons o outer =>
    -- The innermost object opened last.
    obtain ⟨rfl, h_lt, -⟩ := h
    rcases List.mem_cons.mp h_open with rfl | h_outer
    · exact o.number_lt_nextNumber
    · obtain ⟨around, h_mem, rfl⟩ := List.mem_map.mp h_outer
      exact Nat.lt_trans (h_lt around h_mem) o.number_lt_nextNumber

/-- In an object around the innermost one the numbers go on behind the objects left. -/
theorem Numbered.dropWhile {c : Cursor} (h : c.Numbered nextId) (p : OpenObject → Bool) :
    ∃ nextId', nextId ≤ nextId' ∧ Numbered nextId' (c.dropWhile p) := by
  induction c generalizing nextId with
  | nil => exact ⟨nextId, Nat.le_refl _, trivial⟩
  | cons o outer ih =>
    rw [List.dropWhile_cons]
    split
    · obtain ⟨rfl, -, h_behind⟩ := h
      obtain ⟨nextId', h_le, h_outer⟩ := ih h_behind
      -- The numbers of the objects that were not handed out are left out.
      have h_count := o.body.objectsBefore_le o.returned
      refine ⟨nextId', ?_, h_outer⟩
      simp only [OpenObject.nextNumber, OpenObject.numberBehind] at h_le ⊢
      omega
    · exact ⟨nextId, Nat.le_refl _, h⟩

end

/-! ### Objects that have opened -/

/-- The object with a number has opened, whether it is still open or not. -/
def HasOpened (c : Cursor) (number : Nat) : Prop :=
  ∃ nextId, c.Numbered nextId ∧ number < nextId

theorem HasOpened.read {c : Cursor} {number : Nat} (h : c.HasOpened number) :
    c.read.2.HasOpened number ∧ (c.read.2.IsOpen number → c.IsOpen number) := by
  obtain ⟨nextId, h_numbered, h_lt⟩ := h
  cases c with
  | nil => exact ⟨⟨nextId, h_numbered, h_lt⟩, id⟩
  | cons o outer =>
    cases h_rest : o.rest with
    | empty =>
      rw [read_of_empty h_rest]
      exact ⟨⟨nextId, h_numbered.read_of_empty h_rest, h_lt⟩, List.mem_cons_of_mem _⟩
    | field name value rest =>
      rw [Cursor.read_of_field h_rest]
      exact ⟨⟨nextId, h_numbered.read_of_field h_rest, h_lt⟩, id⟩
    | object name inner rest =>
      rw [Cursor.read_of_object h_rest]
      refine ⟨⟨nextId + 1, h_numbered.read_of_object h_rest, by omega⟩, fun h_open => ?_⟩
      -- The object that opens now bears a number that none has borne before.
      rcases List.mem_cons.mp h_open with rfl | h_open
      · exact absurd h_numbered.1 (Nat.ne_of_gt h_lt)
      · exact h_open

theorem HasOpened.answer {c : Cursor} {number : Nat} (h : c.HasOpened number) (request : Request) :
    (c.answer request).2.HasOpened number ∧
      ((c.answer request).2.IsOpen number → c.IsOpen number) := by
  cases request with
  | enter name object => exact ⟨h, id⟩
  | next object =>
    show (c.next object).2.HasOpened number ∧ ((c.next object).2.IsOpen number → _)
    rw [next]
    split
    · exact ⟨h, id⟩
    · obtain ⟨nextId, h_numbered, h_lt⟩ := h
      obtain ⟨nextId', h_le, h_found⟩ := h_numbered.dropWhile (·.number != object)
      obtain ⟨h_opened, h_open⟩ :=
        HasOpened.read ⟨nextId', h_found, Nat.lt_of_lt_of_le h_lt h_le⟩
      refine ⟨h_opened, fun h => ?_⟩
      exact ((List.dropWhile_sublist _).map _).mem (h_open h)

theorem HasOpened.after {c : Cursor} {number : Nat} (h : c.HasOpened number)
    (requests : List Request) :
    (c.after requests).HasOpened number ∧ ((c.after requests).IsOpen number → c.IsOpen number) := by
  induction requests generalizing c with
  | nil => exact ⟨h, id⟩
  | cons request requests ih =>
    obtain ⟨h_next, h_back⟩ := h.answer request
    obtain ⟨h_after, h_open⟩ := ih h_next
    exact ⟨h_after, fun h => h_back (h_open h)⟩

theorem after_append (c : Cursor) (front back : List Request) :
    c.after (front ++ back) = (c.after front).after back := by
  induction front generalizing c with
  | nil => rfl
  | cons request front ih => exact ih _

theorem numbered_start (t : Tree) : (start t).Numbered (rootId + 1) := by
  refine ⟨?_, by simp, trivial⟩
  cases t <;> rfl

/-- An object that has been left or closed does not open again. -/
theorem not_isOpen_after (t : Tree) {front back : List Request} {number : Nat}
    (h_open : ((start t).after front).IsOpen number)
    (h_closed : ¬((start t).after (front ++ back)).IsOpen number) (more : List Request) :
    ¬((start t).after (front ++ back ++ more)).IsOpen number := by
  have h_start : (start t).HasOpened rootId := ⟨_, numbered_start t, Nat.lt_succ_self _⟩
  obtain ⟨nextId, h_numbered, -⟩ := (h_start.after front).1
  have h_opened : ((start t).after front).HasOpened number :=
    ⟨nextId, h_numbered, h_numbered.lt_of_isOpen h_open⟩
  have h_behind := (h_opened.after back).1
  rw [← after_append] at h_behind
  rw [after_append]
  exact fun h => h_closed ((h_behind.after more).2 h)

/-- Reading on in an object does not change what is found of an object around it. -/
theorem dropWhile_read {o : OpenObject} {outer : Cursor} {number : Nat}
    (h_top : o.number ≠ number) (h_open : number ∈ outer.map OpenObject.number)
    (h_lt : ∀ around ∈ outer, around.number < o.number) :
    number ∈ (read (o :: outer)).2.map OpenObject.number ∧
      (read (o :: outer)).2.dropWhile (·.number != number) =
        (o :: outer).dropWhile (·.number != number) := by
  -- The innermost object is not the one that is looked for, nor is one that opens in it.
  have h_skip : (o :: outer).dropWhile (·.number != number) =
      outer.dropWhile (·.number != number) := by simp [h_top]
  have h_new : o.nextNumber ≠ number := by
    obtain ⟨around, h_mem, rfl⟩ := List.mem_map.mp h_open
    exact Nat.ne_of_gt (Nat.lt_trans (h_lt around h_mem) o.number_lt_nextNumber)
  rw [h_skip]
  cases h_rest : o.rest with
  | empty => rw [read_of_empty h_rest]; exact ⟨h_open, rfl⟩
  | field name value rest =>
    rw [read_of_field h_rest]
    exact ⟨List.mem_cons_of_mem _ h_open, by simp [List.dropWhile_cons, h_top]⟩
  | object name inner rest =>
    rw [read_of_object h_rest]
    refine ⟨List.mem_cons_of_mem _ (List.mem_cons_of_mem _ h_open), ?_⟩
    simp [List.dropWhile_cons, h_new, h_top]

end Cursor

end PropertyText
