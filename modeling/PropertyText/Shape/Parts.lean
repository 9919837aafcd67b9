/-
  PropertyText.Shape.Parts

  Typed values on their way out and back in: the parts into which a value of a shape is
  taken for a document, and the value of a shape that a text holds.
-/
import PropertyText.Fields.Load
import PropertyText.Shape.Read

namespace PropertyText

namespace Shape

mutual

/-- The parts of a value of a shape.  What has no parts, or is no value of the shape, is
taken apart into nothing. -/
def data : Shape → Typed → Data
  | .scalar _, .scalar value => .scalar value
  | .bytes, .bytes raw => .bytes raw
  | .unitStruct _, _ => .unitStruct
  | .tree, .tree value => value.toData
  | .document, .document fields => fields.toData
  | .any, .any value => value
  | .option _, .absent => .none
  | .option shape, .some value => .some (data shape value)
  | .newtype _ shape, .newtype value => .newtypeStruct (data shape value)
  | .seq item, .list items => .seq (items.map fun value => data item value)
  | .tuple shapes, .list items => .tuple (itemData shapes items)
  | .tupleStruct _ shapes, .list items => .tupleStruct (itemData shapes items)
  | .map key shape, .map entries =>
    .map (entries.map fun (name, value) => (data key name, data shape value))
  | .struct _ fields _, .struct values => .struct (fieldData fields values)
  | .enum _ _, .unitVariant name => .unitVariant name
  | .enum _ variants, .variant name value => variantData name value variants
  | _, _ => .unit

/-- The elements of a tuple, one for each place. -/
def itemData : List Shape → List Typed → List Data
  | shape :: shapes, value :: values => data shape value :: itemData shapes values
  | _, _ => []

/-- The fields of a struct, in the declared order. -/
def fieldData : List (String × Shape) → List (String × Typed) → List (String × Data)
  | (name, shape) :: fields, (_, value) :: values =>
    (name, data shape value) :: fieldData fields values
  | _, _ => []

/-- A variant with a payload, by what the variant of that name holds. -/
def variantData (name : String) (value : Typed) : List (String × Payload) → Data
  | [] => .unit
  | (other, payload) :: variants =>
    if other = name then payloadData name value payload else variantData name value variants

def payloadData (name : String) : Typed → Payload → Data
  | value, .newtype shape => .newtypeVariant name (data shape value)
  | .list items, .tuple shapes => .tupleVariant name (itemData shapes items)
  | .struct values, .struct fields => .structVariant name (fieldData fields values)
  | _, _ => .unit

end

/-- The value of a shape that a text holds. -/
def readText (shape : Shape) (text : Bytes) (options : ReaderOptions) : Except Error Typed := do
  let f ← Fields.ofBytes text options
  (f.readAs shape).mapError Error.conversion

end Shape
end PropertyText
