/-
  PropertyText.Event

  A document from its first property to its last, as a sequence of events: each property
  that holds a text, and the beginning and the end of each object.  The sequence is what
  readers hand on and what writers take.
-/
import PropertyText.Text.Utf8

namespace PropertyText

inductive Event (α : Type) where
  | field (name value : α)
  | opened (name : α)
  | closed
  deriving DecidableEq, Repr

namespace Event

def map {α β : Type} (f : α → β) : Event α → Event β
  | .field name value => .field (f name) (f value)
  | .opened name => .opened (f name)
  | .closed => .closed

/-- The event with its texts as characters. -/
def decoded : Event Bytes → Event String := map Utf8.decode

/-- The event with its texts as bytes. -/
def encoded : Event String → Event Bytes := map Utf8.encode

end Event
end PropertyText
