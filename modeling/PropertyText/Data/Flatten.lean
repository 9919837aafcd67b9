/-
  PropertyText.Data.Flatten

  Typed values as documents.  A scalar is a text, what has named parts is an object, and a
  sequence is a property that repeats.  Absent values leave nothing behind.  A variant
  with a payload is an object whose properties all bear the variant's name.
-/
import PropertyText.Data
import PropertyText.Error
import PropertyText.Fields.Document

namespace PropertyText

/-- A value before it is given a name. -/
inductive Node where
  | absent
  | scalar (text : String)
  | object (fields : Fields)
  | list (items : List Node)

namespace Node

/-- The properties that one value leaves under a name. -/
def single (name : String) : Node → Except ConversionError Fields
  | .absent => .ok []
  | .scalar text => .ok [(name, .text text)]
  | .object fields => .ok [(name, .object fields)]
  | .list _ => .error .nestedSequence

/-- The properties that the elements of a sequence leave under a name. -/
def singles (name : String) : List Node → Except ConversionError Fields
  | [] => .ok []
  | item :: items => do
    let first ← item.single name
    let rest ← singles name items
    return first ++ rest

/-- The properties that a value leaves under a name. -/
def properties (name : String) : Node → Except ConversionError Fields
  | .list items => singles name items
  | node => node.single name

/-- The text that a key is. -/
def key : Node → Except ConversionError String
  | .scalar text => .ok text
  | _ => .error .badKey

/-- The payload of a variant under the variant's name, which must not be lost. -/
def payload (variant : String) (node : Node) : Except ConversionError Node := do
  let fields ← node.properties variant
  if fields.isEmpty then throw (.emptyVariant variant)
  return .object fields

end Node

namespace Data

mutual

/-- Takes a value apart.  Parts are taken in order, and the first failure ends it. -/
def node : Data → Except ConversionError Node
  | .scalar value => .ok (.scalar value.render)
  | .bytes raw => .ok (.scalar (Utf8.decode raw))
  | .none | .unit | .unitStruct => .ok .absent
  | .some value | .newtypeStruct value => node value
  | .unitVariant variant => .ok (.scalar variant)
  | .newtypeVariant variant value => do (← node value).payload variant
  | .seq items | .tuple items | .tupleStruct items => return .list (← nodes items)
  | .tupleVariant _ _ => .error .tupleVariant
  | .map entries => return .object (← entryFields entries)
  | .mapParts parts => return .object (← partFields Option.none parts)
  | .struct fields => return .object (← namedFields fields)
  | .structVariant variant fields => return .object [(variant, .object (← namedFields fields))]
  | .failing message => .error (.declared message)

def nodes : List Data → Except ConversionError (List Node)
  | [] => .ok []
  | item :: items => do
    let first ← node item
    let rest ← nodes items
    return first :: rest

def namedFields : List (String × Data) → Except ConversionError Fields
  | [] => .ok []
  | (name, value) :: fields => do
    let first ← (← node value).properties name
    let rest ← namedFields fields
    return first ++ rest

def entryFields : List (Data × Data) → Except ConversionError Fields
  | [] => .ok []
  | (key, value) :: entries => do
    let name ← (← node key).key
    let first ← (← node value).properties name
    let rest ← entryFields entries
    return first ++ rest

/-- A value stands under the key that came last, and each key serves one value. -/
def partFields (current : Option String) :
    List (MapSide × Data) → Except ConversionError Fields
  | [] => .ok []
  | (.key, key) :: parts => do
    let name ← (← node key).key
    partFields (Option.some name) parts
  | (.value, value) :: parts =>
    match current with
    -- The value is not looked at before there is a key for it.
    | Option.none => .error .valueWithoutKey
    | Option.some name => do
      let first ← (← node value).properties name
      let rest ← partFields Option.none parts
      return first ++ rest

end

end Data

/-- The document that a value is. -/
def Data.toFields (d : Data) : Except ConversionError Fields :=
  match d.node with
  | .ok (.object fields) => .ok fields
  | .ok _ => .error .notAnObject
  | .error e => .error e

/-- Writes the document that a value is to a sink.  A value that is no document is refused
before the sink is touched. -/
def Data.writeTo {σ : Type} [Sink σ] (d : Data) (sink : σ) (options : WriterOptions) :
    Option Error × σ :=
  match d.toFields with
  | .error e => (Option.some (.conversion e), sink)
  | .ok fields =>
    let w := ((Writer.ofSink sink options).putFields fields).flush
    (w.error, w.sink)

/-- The text of the document that a value is. -/
def Data.document (d : Data) (options : WriterOptions) : Except Error Bytes :=
  match d.writeTo ({} : Collected) options with
  | (Option.some e, _) => .error e
  | (Option.none, sink) => .ok sink.bytes.toList

/-- The same text in characters. -/
def Data.toText (d : Data) (options : WriterOptions) : Except Error String := do
  let bytes ← d.document options
  (Utf8.read bytes).mapError fun place => .conversion (.brokenText place)

mutual

/-- A property's value as typed data. -/
def Value.toData : Value → Data
  | .text text => .scalar (.text text)
  | .object fields => .map (Fields.toEntries fields)

/-- The entries of the map that an object is; names may repeat. -/
def Fields.toEntries : List (String × Value) → List (Data × Data)
  | [] => []
  | (name, value) :: fields => (.scalar (.text name), value.toData) :: Fields.toEntries fields

end

namespace Fields

/-- A document as typed data. -/
def toData (f : Fields) : Data := .map (toEntries f)

end Fields
end PropertyText
