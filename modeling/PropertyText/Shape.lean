/-
  PropertyText.Shape

  The shapes that typed programs give to documents, and the typed values that come of
  reading a document by a shape.
-/
import PropertyText.Data
import PropertyText.Error.Conversion
import PropertyText.Fields

namespace PropertyText

mutual

inductive Shape where
  | scalar (type : ScalarType)
  | bytes
  | unit
  | unitStruct (name : String)
  /-- A property's value as it is. -/
  | tree
  /-- The properties of an object as they are. -/
  | document
  /-- Anything, and what it is does not matter. -/
  | ignored
  /-- Anything, taken as it is offered. -/
  | any
  | option (shape : Shape)
  | newtype (name : String) (shape : Shape)
  | seq (item : Shape)
  | tuple (items : List Shape)
  | tupleStruct (name : String) (items : List Shape)
  | map (key value : Shape)
  /-- Named fields, of which some may be left out. -/
  | struct (name : String) (fields : List (String × Shape)) (defaulted : List String)
  | enum (name : String) (variants : List (String × Payload))
  /-- How many entries are still to come, before each entry of an object and at its end. -/
  | mapSizes
  /-- The same for an object that was not asked for. -/
  | anySizes
  /-- The same for a sequence. -/
  | seqSizes
  /-- An object that is asked for a value before a key. -/
  | mapValueFirst
  /-- The same for an object that was not asked for. -/
  | anyValueFirst

/-- What a variant holds. -/
inductive Payload where
  | unit
  | newtype (shape : Shape)
  | tuple (items : List Shape)
  | struct (fields : List (String × Shape))

end

/-- A value read by a shape. -/
inductive Typed where
  | scalar (value : Scalar)
  | bytes (bytes : Bytes)
  | unit
  | tree (value : Value)
  | document (fields : Fields)
  | ignored
  | any (data : Data)
  | some (value : Typed)
  /-- A field that may be missing and is. -/
  | absent
  /-- A missing field that is given its default. -/
  | defaulted
  | newtype (value : Typed)
  | list (items : List Typed)
  | map (entries : List (Typed × Typed))
  | struct (fields : List (String × Typed))
  | unitVariant (name : String)
  | variant (name : String) (payload : Typed)
  | sizes (sizes : List Nat)

namespace Shape

def isOption : Shape → Bool
  | .option _ => true
  | _ => false

/-- What a shape takes, in the words of messages. -/
def wanted : Shape → String
  | .scalar .bool => "a boolean"
  | .scalar (.int type) => type.name
  | .scalar .single => "f32"
  | .scalar .double => "f64"
  | .scalar .char => "a character"
  | .scalar .text => "a string"
  | .bytes => "bytes"
  | .unit => "unit"
  | .unitStruct name => "unit struct " ++ name
  | .document => "a map of properties"
  | .tree | .ignored | .any => "anything"
  | .option _ => "option"
  | .newtype name _ => "tuple struct " ++ name
  | .seq _ | .seqSizes => "a sequence"
  | .tuple items => "a tuple of size " ++ Number.integerText items.length
  | .tupleStruct name items =>
    "tuple struct " ++ name ++ " with " ++ Number.integerText items.length ++ " elements"
  | .struct name _ _ => "struct " ++ name
  | .enum name _ => "enum " ++ name
  | .map _ _ | .mapSizes | .anySizes | .mapValueFirst | .anyValueFirst => "a map"

end Shape

/-- The kind of text that a type is read from. -/
def ScalarType.textKind : ScalarType → TextKind
  | .bool => .bool
  | .int type => if type.signed then .integer else .unsigned
  | .single | .double => .float
  | .char => .char
  | .text => .string

end PropertyText
