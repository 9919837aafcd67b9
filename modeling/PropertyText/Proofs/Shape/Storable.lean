/-
  PropertyText.Proofs.Shape.Storable

  The typed values that a document holds without loss, and what such a value leaves behind
  in one: nothing, one value, or the values of a sequence (`Stored`).  Main statement:
  `Storable.stored`, by induction on the value.
-/
import PropertyText.Proofs.Data.Tree
import PropertyText.Proofs.Fields.Grouped
import PropertyText.Proofs.Scalar
import PropertyText.Shape.Parts

namespace PropertyText

/-! ## Storable values -/

/-- The shapes that take all the values of a name, those around such a shape among them. -/
def Shape.isSequence : Shape → Bool
  | .seq _ | .tuple _ | .tupleStruct _ _ | .seqSizes => true
  | .option shape | .newtype _ shape => shape.isSequence
  | _ => false

/-- A field with its shape and its value. -/
structure TypedField where
  name : String
  shape : Shape
  value : Typed

namespace TypedField

/-- The fields of a struct as its shape declares them. -/
def declared (fields : List TypedField) : List (String × Shape) :=
  fields.map fun field => (field.name, field.shape)

/-- The fields of a struct as its value has them. -/
def held (fields : List TypedField) : List (String × Typed) :=
  fields.map fun field => (field.name, field.value)

end TypedField

/-- The values of a shape that a document holds without loss.  An option is the field of a
struct and nothing else, a sequence has elements, and none of them is a sequence.  What a
value does not come to in its shape, such as the variants that it is not, may be anything. -/
inductive Storable : Shape → Typed → Prop where
  | scalar {value : Scalar} (h_type : value.type.isFloat = false) :
      Storable (.scalar value.type) (.scalar value)
  | tree (v : Value) : Storable .tree (.tree v)
  | document (f : Fields) : Storable .document (.document f)
  | absent {shape : Shape} (h_option : shape.isOption = false) : Storable (.option shape) .absent
  | some {shape : Shape} {x : Typed} (h_option : shape.isOption = false) (h : Storable shape x) :
      Storable (.option shape) (.some x)
  | newtype {name : String} {shape : Shape} {x : Typed} (h_option : shape.isOption = false)
      (h : Storable shape x) : Storable (.newtype name shape) (.newtype x)
  | seq {item : Shape} {items : List Typed} (h_items : items ≠ [])
      (h_item : item.isSequence = false) (h_option : item.isOption = false)
      (h : ∀ x ∈ items, Storable item x) : Storable (.seq item) (.list items)
  | map {shape : Shape} {entries : List (String × Typed)}
      (h_names : (entries.map (·.1)).Nodup) (h_option : shape.isOption = false)
      (h : ∀ entry ∈ entries, Storable shape entry.2) :
      Storable (.map (.scalar .text) shape)
        (.map (entries.map fun entry => (.scalar (.text entry.1), entry.2)))
  | struct {name : String} {fields : List TypedField} {defaulted : List String}
      (h_names : (fields.map (·.name)).Nodup)
      (h : ∀ field ∈ fields, Storable field.shape field.value) :
      Storable (.struct name (TypedField.declared fields) defaulted)
        (.struct (TypedField.held fields))
  | unitVariant {name : String} {variants : List (String × Payload)} {variant : String}
      (h_variant : variants.lookup variant = Option.some .unit) :
      Storable (.enum name variants) (.unitVariant variant)
  | newtypeVariant {name : String} {variants : List (String × Payload)} {variant : String}
      {shape : Shape} {x : Typed}
      (h_variant : variants.lookup variant = Option.some (.newtype shape))
      (h_option : shape.isOption = false) (h : Storable shape x) :
      Storable (.enum name variants) (.variant variant x)
  | structVariant {name : String} {variants : List (String × Payload)} {variant : String}
      {fields : List TypedField}
      (h_variant : variants.lookup variant =
        Option.some (.struct (TypedField.declared fields)))
      (h_names : (fields.map (·.name)).Nodup)
      (h : ∀ field ∈ fields, Storable field.shape field.value) :
      Storable (.enum name variants) (.variant variant (.struct (TypedField.held fields)))

namespace Typed

/-- The values that are documents: structs, maps, variants with a payload and objects. -/
def isDocument : Typed → Bool
  | .struct _ | .map _ | .variant _ _ | .document _ | .tree (.object _) => true
  | .newtype x => x.isDocument
  | _ => false

def isAbsent : Typed → Bool
  | .absent => true
  | _ => false

theorem eq_absent {x : Typed} (h : x.isAbsent = true) : x = .absent := by
  cases x with
  | absent => rfl
  | _ => cases h

end Typed

/-! ## What a value leaves behind -/

/-- What a value is before it is given a name, and the values that it leaves under one, from
which it is read again. -/
inductive Stored (shape : Shape) (x : Typed) : Node → List Value → Prop where
  | absent (h_option : shape.isOption = true) (h_x : x = .absent) : Stored shape x .absent []
  | one {v : Value} (h_shape : shape.isSequence = false)
      (h_read : shape.read (.one v) = .ok x) (h_present : x.isAbsent = false)
      (h_object : x.isDocument = false ∨ ∃ f, v = .object f) : Stored shape x v.node [v]
  | many {values : List Value} (h_values : values ≠ []) (h_shape : shape.isSequence = true)
      (h_read : shape.read (.all values) = .ok x) (h_present : x.isAbsent = false)
      (h_document : x.isDocument = false) :
      Stored shape x (.list (values.map Value.node)) values

/-- Where no sequence is wanted, all the values of a name are no more than the last one. -/
theorem Shape.read_all_singleton (v : Value) :
    (shape : Shape) → shape.isSequence = false → shape.read (.all [v]) = shape.read (.one v)
  | .option shape, h => by
    rw [read, read, read_all_singleton v shape h]
  | .newtype _ shape, h => by
    rw [read, read, read_all_singleton v shape h]
  | .seq _, h | .tuple _, h | .tupleStruct _ _, h | .seqSizes, h => by cases h
  | .scalar _, _ | .bytes, _ | .tree, _ | .document, _ | .any, _ | .map _ _, _
  | .struct _ _ _, _ | .enum _ _, _ | .mapSizes, _ | .anySizes, _ | .mapValueFirst, _
  | .anyValueFirst, _ => by
    simp only [read, Offer.last, Offer.data, offeredMap]
    rfl
  | .unit, _ | .unitStruct _, _ | .ignored, _ => by
    rw [read, read]

namespace Stored

variable {shape : Shape} {x : Typed} {node : Node} {values : List Value}

theorem properties (h : Stored shape x node values) (name : String) :
    node.properties name = .ok (values.map (name, ·)) := by
  cases h with
  | absent => rfl
  | one => exact Node.properties_node name _
  | many => exact Node.properties_list name values

theorem ne_nil (h : Stored shape x node values) (h_option : shape.isOption = false) :
    values ≠ [] := by
  cases h with
  | absent h_absent => rw [h_option] at h_absent; cases h_absent
  | one => exact List.cons_ne_nil _ _
  | many h_values => exact h_values

theorem read_all (h : Stored shape x node values) (h_values : values ≠ []) :
    shape.read (.all values) = .ok x := by
  cases h with
  | absent => exact absurd rfl h_values
  | one h_shape h_read => rwa [Shape.read_all_singleton _ shape h_shape]
  | many _ _ h_read => exact h_read

/-- What leaves nothing behind is an option without a value. -/
theorem isEmpty_eq (h : Stored shape x node values) : values.isEmpty = x.isAbsent := by
  cases h with
  | absent _ h_x => rw [h_x]; rfl
  | one _ _ h_present => rw [h_present]; rfl
  | many h_values _ _ h_present => rw [h_present, List.isEmpty_eq_false_iff]; exact h_values

theorem isOption (h : Stored shape x node []) : shape.isOption = true := by
  cases h with
  | absent h_option => exact h_option
  | many h_values => exact absurd rfl h_values

/-- A value around another leaves behind what the inner one does. -/
theorem wrap {outer : Shape} {y : Typed} (h : Stored shape x node values)
    (h_option : shape.isOption = false) (h_shape : outer.isSequence = shape.isSequence)
    (h_read : ∀ offer, shape.read offer = .ok x → outer.read offer = .ok y)
    (h_present : y.isAbsent = false)
    (h_document : y.isDocument = false ∨ y.isDocument = x.isDocument) :
    Stored outer y node values := by
  cases h with
  | absent h_absent => rw [h_option] at h_absent; cases h_absent
  | one h_single h_x _ h_object =>
    refine .one (h_shape.trans h_single) (h_read _ h_x) h_present ?_
    rcases h_document with h_none | h_same
    · exact .inl h_none
    · exact h_object.imp_left h_same.trans
  | many h_values h_sequence h_x _ h_none =>
    refine .many h_values (h_shape.trans h_sequence) (h_read _ h_x) h_present ?_
    rcases h_document with h_y | h_same
    · exact h_y
    · exact h_same.trans h_none

end Stored

/-- A value can be taken apart, and it is read from what it leaves behind. -/
def Kept (shape : Shape) (x : Typed) : Prop :=
  ∃ node values, (shape.data x).node = .ok node ∧ Stored shape x node values

namespace Kept

variable {shape : Shape} {x : Typed}

theorem isOption (h : Kept shape x) (h_absent : x.isAbsent = true) : shape.isOption = true := by
  obtain ⟨node, values, -, h_stored⟩ := h
  rw [← h_stored.isEmpty_eq, List.isEmpty_iff] at h_absent
  subst h_absent
  exact h_stored.isOption

/-- Only an option can be missing. -/
theorem present (h : Kept shape x) (h_option : shape.isOption = false) : x.isAbsent = false := by
  rw [← Bool.not_eq_true]
  intro h_absent
  rw [h.isOption h_absent] at h_option
  cases h_option

/-- Where no sequence is wanted and none is missing, there is one value. -/
theorem exists_value (h : Kept shape x) (h_shape : shape.isSequence = false)
    (h_present : x.isAbsent = false) :
    ∃ v, (shape.data x).node = .ok v.node ∧ shape.read (.one v) = .ok x := by
  obtain ⟨node, values, h_node, h_stored⟩ := h
  cases h_stored with
  | absent _ h_x => rw [h_x] at h_present; cases h_present
  | @one v _ h_read => exact ⟨v, h_node, h_read⟩
  | many _ h_sequence => rw [h_shape] at h_sequence; cases h_sequence

end Kept
end PropertyText
