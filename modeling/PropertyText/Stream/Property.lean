/-
  PropertyText.Stream.Property

  Asking a property for what it holds.  A property that does not hold what is asked for
  is a fault of the document: it is recorded in the stream, and something harmless is
  handed back so that reading can go on until errors are looked at.
-/
import PropertyText.Stream
import PropertyText.Text.Shown
import PropertyText.Text.Utf8

namespace PropertyText

namespace Property

def isObject (p : Property) : Bool :=
  match p.content with
  | .text _ => false
  | .object _ => true

/-- The name as characters. -/
def nameText (p : Property) : String := Utf8.decode p.name

/-- The property on one line, for people who look for faults. -/
def describe (p : Property) : String :=
  "Property \x7b name: " ++ shown p.nameText ++
    match p.content with
    | .text value => ", value: " ++ shown (Utf8.decode value) ++ " \x7d"
    | .object id => ", object: " ++ Number.integerText id ++ " \x7d"

end Property

/-- An object's handle on one line, for people who look for faults. -/
def describeObject (id : ObjectId) : String :=
  "Object \x7b id: " ++ Number.integerText id ++ " \x7d"

namespace Stream

variable {ι : Type}

/-- A stream shows nothing of itself. -/
def describe (_ : Stream ι) : String := "Stream \x7b .. \x7d"

variable [Input ι]

/-- The text of a property; no bytes for an object. -/
def value (s : Stream ι) (p : Property) : Bytes × Stream ι :=
  match p.content with
  | .text value => (value, s)
  | .object _ => ([], s.violate (.holdsObject p.nameText))

/-- The text of a property as characters. -/
def valueText (s : Stream ι) (p : Property) : String × Stream ι :=
  let (value, s) := s.value p
  (Utf8.decode value, s)

/-- The object of a property; one that has no properties for a text. -/
def inner (s : Stream ι) (p : Property) : ObjectId × Stream ι :=
  match p.content with
  | .object id => (id, s)
  | .text _ => (detachedId, s.violate (.holdsText p.nameText))

/-- The text of a property read as a scalar; the fallback of the type where that fails. -/
def parse (s : Stream ι) (p : Property) (type : ScalarType) : Scalar × Stream ι :=
  let (text, s) := s.valueText p
  match type.parse? text with
  | some scalar => (scalar, s)
  | none => (type.fallback, s.violate (.badValue p.nameText text))

/-- The place of the text of a property among given names. -/
def choose (s : Stream ι) (p : Property) (names : List String) : Option Nat × Stream ι :=
  let (text, s) := s.valueText p
  match names.findIdx? (· == text) with
  | some place => (some place, s)
  | none => (none, s.violate (.unknownValue p.nameText text))

/-- Records a message unless a condition of the caller's holds. -/
def check (s : Stream ι) (message : String) (condition : Bool) : Stream ι :=
  if condition then s else s.violate (.failedCheck message)

end Stream
end PropertyText
