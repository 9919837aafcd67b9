/-
  PropertyText.Error.Conversion

  Why a value has no document, and why a document does not fit a wanted shape.
-/
import PropertyText.Scalar
import PropertyText.Text.Shown
import PropertyText.Text.Utf8

namespace PropertyText

/-- What a target was offered, as messages name it. -/
inductive Found where
  | boolean (value : Bool)
  | integer (value : Int)
  | wideInteger (type : IntType) (value : Int)
  | float (bits : UInt64)
  | character (value : Char)
  | string (value : String)
  | bytes
  | unit
  | option
  | newtype
  | sequence
  | map
  | enumeration
  | unitVariant
  deriving DecidableEq, Repr

namespace Found

/-- A floating-point number with a point in it, unless it is infinite or no number. -/
def pointed (bits : UInt64) : String :=
  let text := Number.floatText .double bits.toNat
  match BinaryFormat.double.value bits.toNat with
  | .finite .. => if text.toList.contains '.' then text else text ++ ".0"
  | _ => text

def describe : Found → String
  | .boolean value => "boolean `" ++ boolText value ++ "`"
  | .integer value => "integer `" ++ Number.integerText value ++ "`"
  | .wideInteger type value =>
    "integer `" ++ Number.integerText value ++ "` as " ++ type.name
  | .float bits => "floating point `" ++ pointed bits ++ "`"
  | .character value => "character `" ++ String.singleton value ++ "`"
  | .string value => "string " ++ shown value
  | .bytes => "byte array"
  | .unit => "unit value"
  | .option => "Option value"
  | .newtype => "newtype struct"
  | .sequence => "sequence"
  | .map => "map"
  | .enumeration => "enum"
  | .unitVariant => "unit variant"

end Found

/-- The kinds of value that are read from a single text. -/
inductive TextKind where
  | bool
  | integer
  | unsigned
  | float
  | char
  | string
  | bytes
  deriving DecidableEq, Repr

def TextKind.name : TextKind → String
  | .bool => "bool"
  | .integer => "integer"
  | .unsigned => "unsigned integer"
  | .float => "float"
  | .char => "char"
  | .string => "string"
  | .bytes => "bytes"

/-- A conversion between values and documents that has no result. -/
inductive ConversionError where
  /-- A document is the properties of an object, so nothing else can be one. -/
  | notAnObject
  /-- The name of a property is a text, so nothing else can be a key. -/
  | badKey
  /-- A value was given to a map before a key for it. -/
  | valueWithoutKey
  /-- A sequence has no name of its own, so its elements cannot be sequences. -/
  | nestedSequence
  /-- A variant that holds several values side by side has no written form. -/
  | tupleVariant
  /-- The payload of a variant leaves nothing that could carry the variant's name. -/
  | emptyVariant (variant : String)
  /-- A text that does not name a value of the wanted kind. -/
  | unreadable (kind : TextKind) (text : String)
  /-- An object where a single text is wanted. -/
  | objectForText (kind : TextKind)
  /-- A text where an object is wanted. -/
  | textForObject (text : String)
  /-- An object that does not name exactly one variant. -/
  | variantObject
  /-- A map was asked for a value before a key. -/
  | valueBeforeKey
  /-- The target takes nothing of the kind that was found. -/
  | wrongType (found : Found) (expected : String)
  /-- The target takes the kind that was found, but not this value. -/
  | wrongValue (found : Found) (expected : String)
  /-- A sequence that ends too early. -/
  | wrongLength (length : Nat) (expected : String)
  | missingField (name : String)
  | unknownVariant (name : String) (variants : List String)
  /-- Bytes that were written are no text. -/
  | brokenText (place : Utf8.Broken)
  /-- A failure that the value itself declares. -/
  | declared (message : String)
  deriving DecidableEq, Repr

namespace ConversionError

/-- A name between backticks. -/
def marked (name : String) : String := "`" ++ name ++ "`"

/-- The names of which one was wanted. -/
def alternatives : List String → String
  | [] => "there are no variants"
  | [a] => "expected " ++ marked a
  | [a, b] => "expected " ++ marked a ++ " or " ++ marked b
  | names => "expected one of " ++ ", ".intercalate (names.map marked)

def message : ConversionError → String
  | .notAnObject => "top-level value must be a struct or map"
  | .badKey => "map keys must be strings"
  | .valueWithoutKey => "serialize_value called without serialize_key"
  | .nestedSequence => "nested sequences are not supported"
  | .tupleVariant => "tuple variants are not supported"
  | .emptyVariant variant => "variant " ++ variant ++ " has no value to write"
  | .unreadable kind text => "invalid " ++ kind.name ++ ": " ++ shown text
  | .objectForText kind => "expected " ++ kind.name ++ ", found object"
  | .textForObject text => "expected object, found string " ++ shown text
  | .variantObject => "expected an object with properties of a single variant for enum"
  | .valueBeforeKey => "next_value_seed called before next_key_seed"
  | .wrongType found expected => "invalid type: " ++ found.describe ++ ", expected " ++ expected
  | .wrongValue found expected => "invalid value: " ++ found.describe ++ ", expected " ++ expected
  | .wrongLength length expected =>
    "invalid length " ++ Number.integerText length ++ ", expected " ++ expected
  | .missingField name => "missing field " ++ marked name
  | .unknownVariant name variants =>
    "unknown variant " ++ marked name ++ ", " ++ alternatives variants
  | .brokenText ⟨index, some length⟩ =>
    "invalid utf-8 sequence of " ++ Number.integerText length ++ " bytes from index " ++
      Number.integerText index
  | .brokenText ⟨index, none⟩ =>
    "incomplete utf-8 byte sequence from index " ++ Number.integerText index
  | .declared message => message

end ConversionError
end PropertyText
