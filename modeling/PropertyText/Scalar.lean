/-
  PropertyText.Scalar

  Values that a document stores as one string, the text each is stored as, and the values
  that a text stands for under a wanted type.
-/
import PropertyText.Number.Literal
import PropertyText.Number.Shortest

namespace PropertyText

/-- What a single text can be read as. -/
inductive ScalarType where
  | bool
  | int (type : IntType)
  | single
  | double
  | char
  | text
  deriving DecidableEq, Repr

/-- A value with one text.  Floating-point numbers are given by their bits. -/
inductive Scalar where
  | bool (value : Bool)
  | int (type : IntType) (value : type.Value)
  | single (bits : UInt32)
  | double (bits : UInt64)
  | char (value : Char)
  | text (value : String)
  deriving DecidableEq

/-- The words for the truth values. -/
def boolText (value : Bool) : String := if value then "true" else "false"

namespace Scalar

/-- The text that a scalar is stored as. -/
def render : Scalar → String
  | .bool value => boolText value
  | .int _ value => Number.integerText value.val
  | .single bits => Number.floatText .single bits.toNat
  | .double bits => Number.floatText .double bits.toNat
  | .char value => String.singleton value
  | .text value => value

def type : Scalar → ScalarType
  | .bool _ => .bool
  | .int t _ => .int t
  | .single _ => .single
  | .double _ => .double
  | .char _ => .char
  | .text _ => .text

end Scalar

/-- The truth value that a text names. -/
def bool? (text : String) : Option Bool :=
  if text = "true" then some true
  else if text = "false" then some false
  else none

/-- The only character of a text. -/
def onlyChar? (text : String) : Option Char :=
  match text.toList with
  | [c] => some c
  | _ => none

namespace ScalarType

/-- The scalar of a type that a text stands for. -/
def parse? (type : ScalarType) (text : String) : Option Scalar :=
  match type with
  | .bool => (bool? text).map .bool
  | .int t => (t.parse? text).map (.int t)
  | .single => (BinaryFormat.single.parse? text).map fun bits => .single (.ofNat bits)
  | .double => (BinaryFormat.double.parse? text).map fun bits => .double (.ofNat bits)
  | .char => (onlyChar? text).map .char
  | .text => some (.text text)

/-- The scalar that stands in where no text of the type was found. -/
def fallback : ScalarType → Scalar
  | .bool => .bool false
  | .int t => .int t ⟨0, t.holds_zero⟩
  | .single => .single 0
  | .double => .double 0
  | .char => .char '\x00'
  | .text => .text ""

end ScalarType
end PropertyText
