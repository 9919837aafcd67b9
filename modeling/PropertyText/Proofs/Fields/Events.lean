/-
  PropertyText.Proofs.Fields.Events

  The events of a document held as a whole, by recursion on the document
  (`Fields.toEvents_eq`), and the raw tree that it is when its texts are written as bytes.
-/
import PropertyText.Proofs.Text.Utf8
import PropertyText.Proofs.Tree

namespace PropertyText

namespace Fields

/-- The properties of an object, each object with its inner ones between its beginning and
its end. -/
def events : List (String × Value) → List (Event String)
  | [] => []
  | (name, .text value) :: rest => .field name value :: events rest
  | (name, .object inner) :: rest => .opened name :: events inner ++ .closed :: events rest

/-- The events of an object and of what is left of those around it. -/
def eventsOf : List Fields → List (Event String)
  | [] => []
  | f :: outer => events f ++ if outer.isEmpty then [] else .closed :: eventsOf outer

theorem eventsOnto_eq (seen : List (Event String)) (pending : List Fields) :
    eventsOnto seen pending = seen.reverse ++ eventsOf pending := by
  fun_induction eventsOnto seen pending with
  | case1 seen => simp [eventsOf]
  | case2 seen outer ih =>
    refine ih.trans ?_
    cases outer <;> simp [eventsOf, events]
  | case3 seen outer name value rest ih =>
    rw [ih]
    simp [eventsOf, events]
  | case4 seen outer name fields rest ih =>
    rw [ih]
    simp [eventsOf, events]

theorem toEvents_eq (f : Fields) : f.toEvents = events f := by
  rw [toEvents, eventsOnto_eq]
  simp [eventsOf]

end Fields

namespace Tree

/-- A document with its texts as bytes. -/
def ofFields : List (String × Value) → Tree
  | [] => .empty
  | (name, .text value) :: rest => .field (Utf8.encode name) (Utf8.encode value) (ofFields rest)
  | (name, .object inner) :: rest =>
    .object (Utf8.encode name) (ofFields inner) (ofFields rest)

theorem decoded_ofFields (f : Fields) : (ofFields f).decoded = f := by
  fun_induction ofFields f with
  | case1 => rfl
  | case2 name value rest ih => simp [decoded, Utf8.decode_encode, ih]
  | case3 name inner rest ih_inner ih_rest =>
    simp [decoded, Utf8.decode_encode, ih_inner, ih_rest]

theorem events_ofFields (f : Fields) :
    (ofFields f).events = f.toEvents.map Event.encoded := by
  rw [Fields.toEvents_eq]
  fun_induction ofFields f with
  | case1 => simp [events, Fields.events]
  | case2 name value rest ih => simp [events, Fields.events, ih, Event.encoded, Event.map]
  | case3 name inner rest ih_inner ih_rest =>
    simp [events, Fields.events, ih_inner, ih_rest, Event.encoded, Event.map]

end Tree

/-- Every object of a document is ended, and nothing else is. -/
theorem Fields.depthAfter_toEvents (f : Fields) (depth : Nat) :
    Event.depthAfter depth (f.toEvents.map Event.encoded) = some depth := by
  rw [← Tree.events_ofFields]
  exact Tree.depthAfter_events _ depth

end PropertyText
