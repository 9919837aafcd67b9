/-
  PropertyText.Shape.Read

  Reading a document by a shape.  A shape is offered either one value or all the values of
  a name; a sequence takes them all, and every other shape takes the last one.  Names of
  properties serve as keys of maps and as names of variants.
-/
import PropertyText.Data.Flatten
import PropertyText.Data.Import
import PropertyText.Fields.Lookup
import PropertyText.Shape

namespace PropertyText

/-- What a shape is read from. -/
inductive Offer where
  | one (value : Value)
  /-- All the values of one name, in order. -/
  | all (values : List Value)

namespace Offer

/-- The value that counts where one is wanted. -/
def last : Offer → Value
  | .one value => value
  | .all values => values.getLast?.getD (.text "")

/-- The offer as data, for shapes that take anything: a name that repeats is a sequence. -/
def data : Offer → Data
  | .all (first :: second :: rest) => .seq ((first :: second :: rest).map Value.toData)
  | offer => offer.last.toData

/-- The values of a sequence.  One value alone is none. -/
def sequence : Offer → Except ConversionError (List Value)
  | .one _ => .error .nestedSequence
  | .all values => .ok values

end Offer

namespace Value

/-- The properties of an object where one is wanted. -/
def asObject : Value → Except ConversionError Fields
  | .object fields => .ok fields
  | .text s => .error (.textForObject s)

/-- A text where one of some kind is wanted. -/
def asText (kind : TextKind) : Value → Except ConversionError String
  | .text s => .ok s
  | .object _ => .error (.objectForText kind)

/-- The scalar that the text of a property stands for. -/
def readScalar (v : Value) (type : ScalarType) : Except ConversionError Scalar := do
  let s ← v.asText type.textKind
  match type.parse? s with
  | some scalar => return scalar
  | none => throw (.unreadable type.textKind s)

/-- The variant that an object names, with its values: all properties must bear its name. -/
def namedVariant (f : Fields) : Except ConversionError (String × List Value) :=
  match f with
  | [] => .error .variantObject
  | (variant, first) :: rest =>
    if rest.all (·.1 == variant) then .ok (variant, first :: rest.map (·.2))
    else .error .variantObject

end Value

/-- A variant that is given by its name alone. -/
def Payload.ofName (name : String) : Payload → Except ConversionError Typed
  | .unit => .ok (.unitVariant name)
  | .newtype _ => .error (.wrongType .unitVariant "newtype variant")
  | .tuple _ => .error (.wrongType .unitVariant "tuple variant")
  | .struct _ => .error (.wrongType .unitVariant "struct variant")

namespace Shape

/-- The variant of a name. -/
def variantOfName (variants : List (String × Payload)) (name : String) :
    Except ConversionError Typed :=
  match variants.lookup name with
  | some payload => payload.ofName name
  | none => .error (.unknownVariant name (variants.map (·.1)))

/-- Reads a name.  Most shapes do not take one, not even where they would take its text as
the value of a property. -/
def readName (shape : Shape) (name : String) : Except ConversionError Typed :=
  match shape with
  | .scalar .text => .ok (.scalar (.text name))
  | .scalar .char =>
    match onlyChar? name with
    | some c => .ok (.scalar (.char c))
    | none => .error (.wrongValue (.string name) shape.wanted)
  | .tree => .ok (.tree (.text name))
  | .ignored => .ok .ignored
  | .any => .ok (.any (.scalar (.text name)))
  | .enum _ variants => variantOfName variants name
  | shape => .error (.wrongType (.string name) shape.wanted)

/-- The numbers from a given one down to zero. -/
def countdown (n : Nat) : List Nat := (List.range (n + 1)).reverse

/-- An object that was offered without being asked for. -/
def offeredMap (offer : Offer) : Except ConversionError Fields :=
  match offer.data.found with
  | .map => offer.last.asObject
  | found => .error (.wrongType found "a map")

/-- Puts the fields that were found in the declared order, and sees to those that were
not. -/
def arrange (defaulted : List String) (found : List (String × Typed)) :
    List (String × Shape) → Except ConversionError (List (String × Typed))
  | [] => .ok []
  | (name, shape) :: fields => do
    let value ←
      match found.lookup name with
      | some value => pure value
      | none =>
        if shape.isOption then pure .absent
        else if defaulted.contains name then pure .defaulted
        else throw (.missingField name)
    let rest ← arrange defaulted found fields
    return (name, value) :: rest

mutual

/-- Reads what is offered. -/
def read : Shape → Offer → Except ConversionError Typed
  | .scalar type, offer => return .scalar (← offer.last.readScalar type)
  | .bytes, offer => return .bytes (Utf8.encode (← offer.last.asText .bytes))
  | .unit, _ | .unitStruct _, _ => .ok .unit
  | .tree, offer => return .tree (← offer.data.toValue)
  | .document, offer => return .document (← offer.data.importFields)
  | .ignored, _ => .ok .ignored
  | .any, offer => .ok (.any offer.data)
  | .option shape, offer => return .some (← read shape offer)
  | .newtype _ shape, offer => return .newtype (← read shape offer)
  -- The elements of a sequence are single values again, so they cannot be sequences.
  | .seq item, offer => do
    return .list (← (← offer.sequence).mapM fun v => read item (.one v))
  | .tuple items, offer => do
    return .list (← readItems (Shape.tuple items).wanted 0 items (← offer.sequence))
  | .tupleStruct name items, offer => do
    return .list (← readItems (Shape.tupleStruct name items).wanted 0 items (← offer.sequence))
  | .map key value, offer => do
    let f ← offer.last.asObject
    return .map (← f.grouped.mapM fun (name, values) => do
      let k ← readName key name
      let v ← read value (.all values)
      return (k, v))
  | .struct _ fields defaulted, offer => do
    let f ← offer.last.asObject
    -- Fields are read in the document's order, so the first one that does not fit is found.
    let found ← f.grouped.mapM fun (name, values) => readField name (.all values) fields
    return .struct (← arrange defaulted found.reduceOption fields)
  | .enum _ variants, offer =>
    match offer.last with
    | .text name => variantOfName variants name
    -- Several values of the variant's name are those of a sequence that it holds.
    | .object f => do
      let (variant, values) ← Value.namedVariant f
      readVariant (variants.map (·.1)) variant values variants
  | .mapSizes, offer => return .sizes (countdown (← offer.last.asObject).grouped.length)
  | .anySizes, offer => return .sizes (countdown (← offeredMap offer).length)
  | .seqSizes, offer => return .sizes (countdown (← offer.sequence).length)
  | .mapValueFirst, offer => do
    let _ ← offer.last.asObject
    throw .valueBeforeKey
  | .anyValueFirst, offer => do
    let _ ← offeredMap offer
    throw .valueBeforeKey

/-- Reads one value for each place; values beyond the last place are left out. -/
def readItems (wanted : String) (place : Nat) :
    List Shape → List Value → Except ConversionError (List Typed)
  | [], _ => .ok []
  | _ :: _, [] => .error (.wrongLength place wanted)
  | shape :: shapes, value :: values => do
    let first ← read shape (.one value)
    let rest ← readItems wanted (place + 1) shapes values
    return first :: rest

/-- Reads the values of a name by the field of that name, if there is one. -/
def readField (name : String) (offer : Offer) :
    List (String × Shape) → Except ConversionError (Option (String × Typed))
  | [] => .ok none
  | (field, shape) :: fields =>
    if field = name then do
      let value ← read shape offer
      return some (name, value)
    else readField name offer fields

/-- Reads the values of a variant by the variant of that name. -/
def readVariant (names : List String) (variant : String) (values : List Value) :
    List (String × Payload) → Except ConversionError Typed
  | [] => .error (.unknownVariant variant names)
  | (name, payload) :: variants =>
    if name = variant then readPayload variant values payload
    else readVariant names variant values variants

def readPayload (variant : String) (values : List Value) :
    Payload → Except ConversionError Typed
  | .unit => .ok (.unitVariant variant)
  | .newtype shape => return .variant variant (← read shape (.all values))
  | .tuple _ => .error .tupleVariant
  | .struct fields => do
    let f ← (Offer.all values).last.asObject
    let found ← f.grouped.mapM fun (name, values) => readField name (.all values) fields
    return .variant variant (.struct (← arrange [] found.reduceOption fields))

end

end Shape

/-- The typed value that a document is by a shape. -/
def Fields.readAs (f : Fields) (shape : Shape) : Except ConversionError Typed :=
  shape.read (.one (.object f))

end PropertyText
