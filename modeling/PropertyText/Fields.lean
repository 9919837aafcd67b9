/-
  PropertyText.Fields

  A document held as a whole: the properties of an object in order, where names may
  repeat, and where a property holds a text or another object.
-/
import PropertyText.Event
import PropertyText.Scalar

namespace PropertyText

inductive Value where
  | text (text : String)
  | object (fields : List (String × Value))
  deriving Repr

/-- The properties of an object, in order. -/
abbrev Fields := List (String × Value)

mutual

def Value.decEq : (a b : Value) → Decidable (a = b)
  | .text s, .text t =>
    if h : s = t then .isTrue (h ▸ rfl) else .isFalse (by simpa using h)
  | .object f, .object g =>
    match Fields.decEq f g with
    | .isTrue h => .isTrue (h ▸ rfl)
    | .isFalse h => .isFalse (by simpa using h)
  | .text _, .object _ => .isFalse (by simp)
  | .object _, .text _ => .isFalse (by simp)

def Fields.decEq : (f g : List (String × Value)) → Decidable (f = g)
  | [], [] => .isTrue rfl
  | [], _ :: _ => .isFalse (by simp)
  | _ :: _, [] => .isFalse (by simp)
  | (n, v) :: f, (m, w) :: g =>
    if h_name : n = m then
      match Value.decEq v w with
      | .isTrue h_value =>
        match Fields.decEq f g with
        | .isTrue h => .isTrue (by rw [h_name, h_value, h])
        | .isFalse h => .isFalse (by simp [h])
      | .isFalse h => .isFalse (by simp [h])
    else .isFalse (by simp [h_name])

end

instance : DecidableEq Value := Value.decEq

namespace Value

def text? : Value → Option String
  | .text s => some s
  | .object _ => none

def object? : Value → Option Fields
  | .text _ => none
  | .object f => some f

/-- A scalar is stored as its text. -/
def ofScalar (scalar : Scalar) : Value := .text scalar.render

/-- The scalar of a type for which a text stands; an object stands for none. -/
def parse? (v : Value) (type : ScalarType) : Option Scalar := v.text?.bind type.parse?

end Value

namespace Fields

/-- Adds a property at the end. -/
def push (f : Fields) (name : String) (value : Value) : Fields := f ++ [(name, value)]

def names (f : Fields) : List String := f.map (·.1)

/-! ## As a sequence of events -/

/-- An object that is being put together: the properties so far in reverse, and the
objects around it, each with the name under which the one inside will stand. -/
structure Draft where
  current : Fields := []
  outer : List (String × Fields) := []

namespace Draft

/-- Adds what an event says.  An end that no beginning belongs to is left out. -/
def add (p : Draft) : Event String → Draft
  | .field name value => { p with current := (name, .text value) :: p.current }
  | .opened name => { current := [], outer := (name, p.current) :: p.outer }
  | .closed =>
    match p.outer with
    | [] => p
    | (name, around) :: outer =>
      { current := (name, .object p.current.reverse) :: around, outer }

/-- The object as far as it has been put together. -/
def result (p : Draft) : Fields := p.current.reverse

end Draft

/-- The document that a sequence of events describes. -/
def ofEvents (events : List (Event String)) : Fields :=
  (events.foldl Draft.add {}).result

/-- The events of the objects still to be written, innermost first, behind those already
seen, which stand in reverse. -/
def eventsOnto (seen : List (Event String)) : List Fields → List (Event String)
  | [] => seen.reverse
  -- The whole document has no end of its own.
  | [] :: outer => eventsOnto (if outer.isEmpty then seen else .closed :: seen) outer
  | ((name, .text value) :: rest) :: outer =>
    eventsOnto (.field name value :: seen) (rest :: outer)
  | ((name, .object fields) :: rest) :: outer =>
    eventsOnto (.opened name :: seen) (fields :: rest :: outer)
termination_by pending => sizeOf pending

/-- The document as a sequence of events. -/
def toEvents (f : Fields) : List (Event String) := eventsOnto [] [f]

end Fields
end PropertyText
