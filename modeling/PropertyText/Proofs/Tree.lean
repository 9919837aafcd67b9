/-
  PropertyText.Proofs.Tree

  A document as a tree of raw text: what its grammar derives, before any text is read as
  characters.  The tree, its events, and the `Fields` that a load makes of it are tied
  together here (`Tree.ofEvents_events`, `Tree.exists_events_iff`).
-/
import PropertyText.Fields

namespace PropertyText

/-- The properties of an object, in order, in raw text. -/
inductive Tree where
  | empty
  | field (name value : Bytes) (rest : Tree)
  | object (name : Bytes) (inner rest : Tree)
  deriving DecidableEq, Repr

namespace Tree

/-- The properties with their texts as characters. -/
def decoded : Tree → Fields
  | .empty => []
  | .field name value rest => (Utf8.decode name, .text (Utf8.decode value)) :: rest.decoded
  | .object name inner rest => (Utf8.decode name, .object inner.decoded) :: rest.decoded

/-- The properties in the order in which they are read. -/
def events : Tree → List (Event Bytes)
  | .empty => []
  | .field name value rest => .field name value :: rest.events
  | .object name inner rest => .opened name :: inner.events ++ .closed :: rest.events

/-- How many objects there are, at any depth. -/
def objectCount : Tree → Nat
  | .empty => 0
  | .field _ _ rest => rest.objectCount
  | .object _ inner rest => 1 + inner.objectCount + rest.objectCount

/-! ## Building the tree from its events -/

theorem foldl_add_events (t : Tree) (current : Fields) (outer : List (String × Fields)) :
    (t.events.map Event.decoded).foldl Fields.Draft.add { current, outer } =
      { current := t.decoded.reverse ++ current, outer } := by
  induction t generalizing current outer with
  | empty => rfl
  | field name value rest ih =>
    simp only [events, List.map_cons, List.foldl_cons]
    refine (ih _ outer).trans ?_
    simp [decoded]
  | object name inner rest ih_inner ih_rest =>
    simp only [events, List.cons_append, List.map_cons, List.map_append, List.foldl_cons,
      List.foldl_append]
    have h_inner := ih_inner [] ((Utf8.decode name, current) :: outer)
    have h_opened : Fields.Draft.add { current, outer } (Event.decoded (.opened name)) =
        { current := [], outer := (Utf8.decode name, current) :: outer } := rfl
    rw [h_opened, h_inner]
    refine (ih_rest _ outer).trans ?_
    simp [decoded]

/-- The events of a tree describe the tree. -/
theorem ofEvents_events (t : Tree) : Fields.ofEvents (t.events.map Event.decoded) = t.decoded := by
  rw [Fields.ofEvents, foldl_add_events]
  simp [Fields.Draft.result]

end Tree

/-! ## Nesting -/

namespace Event

variable {α : Type}

/-- How many objects are open behind a sequence of events, if none is closed that is not
open. -/
def depthAfter : Nat → List (Event α) → Option Nat
  | depth, [] => some depth
  | depth, .field _ _ :: events => depthAfter depth events
  | depth, .opened _ :: events => depthAfter (depth + 1) events
  | 0, .closed :: _ => none
  | depth + 1, .closed :: events => depthAfter depth events

theorem depthAfter_append (depth : Nat) (a b : List (Event α)) :
    depthAfter depth (a ++ b) = (depthAfter depth a).bind (depthAfter · b) := by
  induction a generalizing depth with
  | nil => rfl
  | cons e a ih =>
    cases e with
    | field name value => exact ih depth
    | opened name => exact ih (depth + 1)
    | closed =>
      cases depth with
      | zero => rfl
      | succ depth => exact ih depth

/-- Where no object is closed that is not open, none is in the first of the events. -/
theorem exists_depthAfter_of_append {level depth : Nat} {front back : List (Event α)}
    (h : depthAfter level (front ++ back) = some depth) :
    ∃ opened, depthAfter level front = some opened := by
  rw [depthAfter_append] at h
  obtain ⟨opened, h_front, -⟩ := Option.bind_eq_some_iff.mp h
  exact ⟨opened, h_front⟩

/-- Objects that are open before stay open behind. -/
theorem depthAfter_add {depth opened : Nat} {events : List (Event α)} (level : Nat)
    (h : depthAfter depth events = some opened) :
    depthAfter (level + depth) events = some (level + opened) := by
  fun_induction depthAfter depth events with
  | case1 depth => rw [depthAfter, Option.some.inj h]
  | case2 depth name value events ih => exact ih h
  | case3 depth name events ih => exact ih h
  | case4 => cases h
  | case5 depth events ih => exact ih h

theorem depthAfter_replicate_closed (depth : Nat) :
    depthAfter depth (List.replicate depth (.closed : Event α)) = some 0 := by
  induction depth with
  | zero => rfl
  | succ depth ih => exact ih

end Event

namespace Tree

theorem depthAfter_events (t : Tree) (depth : Nat) :
    Event.depthAfter depth t.events = some depth := by
  induction t generalizing depth with
  | empty => rfl
  | field name value rest ih => exact ih depth
  | object name inner rest ih_inner ih_rest =>
    simp only [events, List.cons_append, Event.depthAfter]
    rw [Event.depthAfter_append, ih_inner, Option.bind_some]
    exact ih_rest depth

theorem events_append_closed_inj {t u : Tree} {a b : List (Event Bytes)}
    (h : t.events ++ .closed :: a = u.events ++ .closed :: b) : t = u ∧ a = b := by
  induction t generalizing u a b with
  | empty =>
    cases u with
    | empty => exact ⟨rfl, (List.cons.inj h).2⟩
    | field | object => simp [events] at h
  | field name value rest ih =>
    cases u with
    | field name' value' rest' =>
      simp only [events, List.cons_append, List.cons.injEq, Event.field.injEq] at h
      obtain ⟨⟨rfl, rfl⟩, h_rest⟩ := h
      obtain ⟨rfl, h_behind⟩ := ih h_rest
      exact ⟨rfl, h_behind⟩
    | empty | object => simp [events] at h
  | object name inner rest ih_inner ih_rest =>
    cases u with
    | object name' inner' rest' =>
      simp only [events, List.cons_append, List.append_assoc, List.cons.injEq,
        Event.opened.injEq] at h
      obtain ⟨rfl, h_inner⟩ := h
      obtain ⟨rfl, h_rest⟩ := ih_inner h_inner
      obtain ⟨rfl, h_behind⟩ := ih_rest h_rest
      exact ⟨rfl, h_behind⟩
    | empty | field => simp [events] at h

/-- A tree is told by its events. -/
theorem events_injective {t u : Tree} (h : t.events = u.events) : t = u :=
  (events_append_closed_inj (congrArg (· ++ [.closed]) h)).1

/-- The events of an object and of what is left of those around it, innermost first. -/
def unwind : Tree → List Tree → List (Event Bytes)
  | t, [] => t.events
  | t, around :: outer => t.events ++ .closed :: unwind around outer

theorem exists_unwind {depth : Nat} {events : List (Event Bytes)}
    (h : Event.depthAfter depth events = some 0) :
    ∃ t outer, outer.length = depth ∧ events = unwind t outer := by
  induction events generalizing depth with
  | nil =>
    obtain rfl : depth = 0 := by simpa [Event.depthAfter] using h
    exact ⟨.empty, [], rfl, rfl⟩
  | cons e events ih =>
    cases e with
    | field name value =>
      obtain ⟨t, outer, h_length, rfl⟩ := ih h
      refine ⟨.field name value t, outer, h_length, ?_⟩
      cases outer <;> rfl
    | opened name =>
      obtain ⟨inner, outer, h_length, rfl⟩ := ih h
      cases outer with
      | nil => simp at h_length
      | cons rest outer =>
        refine ⟨.object name inner rest, outer, by simpa using h_length, ?_⟩
        cases outer <;> simp [unwind, Tree.events]
    | closed =>
      cases depth with
      | zero => simp [Event.depthAfter] at h
      | succ depth =>
        obtain ⟨t, outer, h_length, rfl⟩ := ih h
        exact ⟨.empty, t :: outer, by simp [h_length], rfl⟩

/-- The events of trees are those in which every object is closed that is opened, and no
other. -/
theorem exists_events_iff (events : List (Event Bytes)) :
    (∃ t : Tree, t.events = events) ↔ Event.depthAfter 0 events = some 0 := by
  constructor
  · rintro ⟨t, rfl⟩
    exact t.depthAfter_events 0
  · intro h
    obtain ⟨t, outer, h_length, rfl⟩ := exists_unwind h
    obtain rfl := List.length_eq_zero_iff.mp h_length
    exact ⟨t, rfl⟩

end Tree
end PropertyText
