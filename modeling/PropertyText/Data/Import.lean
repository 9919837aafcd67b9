/-
  PropertyText.Data.Import

  Trees from typed data of other formats.  Under a name, nothing leaves no property and a
  sequence leaves one property for each element; everywhere else a sequence stands for its
  last element, as a repeated name does where a single value is wanted.
-/
import PropertyText.Data
import PropertyText.Error.Conversion
import PropertyText.Fields

namespace PropertyText

/-- What a scalar is when it is offered as it is. -/
def Scalar.found : Scalar → Found
  | .bool value => .boolean value
  | .int type value =>
    match type.width with
    | .w128 => .wideInteger type value.val
    | _ => .integer value.val
  | .single bits => .float (.ofNat (BinaryFormat.convert .single .double bits.toNat))
  | .double bits => .float bits
  | .char value => .character value
  | .text value => .string value

namespace Data

/-- What a value is when it is offered as it is. -/
def found : Data → Found
  | .scalar value => value.found
  | .bytes _ => .bytes
  | .none | .some _ => .option
  | .unit | .unitStruct => .unit
  | .newtypeStruct _ => .newtype
  | .unitVariant _ | .newtypeVariant _ _ | .tupleVariant _ _ | .structVariant _ _ => .enumeration
  | .seq _ | .tuple _ | .tupleStruct _ => .sequence
  | .map _ | .mapParts _ | .struct _ | .failing _ => .map

/-- What a tree takes, in the words of messages. -/
def wanted : String := "a string, a scalar or a map of properties"

/-- The text of a scalar, with floating-point numbers in double precision.  Integers of 128
bits are not taken. -/
def importScalar (value : Scalar) : Except ConversionError Value :=
  match value.found with
  | .wideInteger type n => .error (.wrongType (.wideInteger type n) wanted)
  | .float bits => .ok (.text (Number.floatText .double bits.toNat))
  | _ => .ok (.ofScalar value)

/-- The name that a key is. -/
def importKey : Data → Except ConversionError String
  | .scalar (.text name) => .ok name
  | .scalar (.char c) => .ok (String.singleton c)
  | .bytes raw =>
    match Utf8.decode? raw with
    | Option.some name => .ok name
    | Option.none => .error (.wrongValue .bytes "a string")
  | d => .error (.wrongType d.found "a string")

mutual

/-- A value as a tree. -/
def toValue : Data → Except ConversionError Value
  | .scalar value => importScalar value
  | .seq items | .tuple items | .tupleStruct items => lastValue Option.none items
  | .map entries => return .object (← properties entries)
  | .struct fields => return .object (← namedProperties fields)
  | .failing message => .error (.declared message)
  | d => .error (.wrongType d.found wanted)

/-- The last of several values.  All of them must be fit, and there must be one. -/
def lastValue (last : Option Value) : List Data → Except ConversionError Value
  | [] =>
    match last with
    | Option.some value => .ok value
    | Option.none => .error (.wrongLength 0 wanted)
  | item :: items => do
    -- An earlier element is dropped, but must be fit all the same.
    let value ← toValue item
    lastValue (Option.some value) items

/-- The properties that a value leaves under a name. -/
def importEntry (name : String) : Data → Except ConversionError Fields
  | .none | .unit | .unitStruct => .ok []
  | .some value => importEntry name value
  | .seq items | .tuple items | .tupleStruct items => repeated name items
  | .scalar value => return [(name, ← importScalar value)]
  | .map entries => return [(name, .object (← properties entries))]
  | .struct fields => return [(name, .object (← namedProperties fields))]
  | .failing message => .error (.declared message)
  | d => .error (.wrongType d.found wanted)

/-- One property of a name for each element. -/
def repeated (name : String) : List Data → Except ConversionError Fields
  | [] => .ok []
  | item :: items => do
    let value ← toValue item
    let rest ← repeated name items
    return (name, value) :: rest

def properties : List (Data × Data) → Except ConversionError Fields
  | [] => .ok []
  | (key, value) :: entries => do
    let name ← importKey key
    let first ← importEntry name value
    let rest ← properties entries
    return first ++ rest

def namedProperties : List (String × Data) → Except ConversionError Fields
  | [] => .ok []
  | (name, value) :: fields => do
    let first ← importEntry name value
    let rest ← namedProperties fields
    return first ++ rest

end

end Data

/-- The document that a value is taken for; a text alone is none. -/
def Value.toFields : Value → Except ConversionError Fields
  | .object fields => .ok fields
  | .text s => .error (.wrongType (.string s) "a map of properties")

/-- The document that data of another format describes. -/
def Data.importFields (d : Data) : Except ConversionError Fields := do (← d.toValue).toFields

end PropertyText
