/-
  PropertyText.Proofs.Shape.Keyed

  Maps whose keys are written as their texts.  Every one of them is a document, but only the
  keys that are taken for names come back: the text of a truth value or an integer stands for
  it as a value, and is refused as a key.  Main statement: `Shape.readAs_map`.
-/
import PropertyText.Proofs.Number.Literal
import PropertyText.Proofs.Shape.RoundTrip

namespace PropertyText

/-! ## Keys -/

/-- Keys with a text of their own: scalars, except floating-point numbers, and variants of an
enumeration none of which holds anything. -/
inductive MapKey : Shape → Typed → Prop where
  | scalar {type : ScalarType} {value : Scalar} (h_value : value.type = type)
      (h_type : type.isFloat = false) : MapKey (.scalar type) (.scalar value)
  | unitVariant {name : String} {variants : List (String × Payload)} {variant : String}
      (h_units : ∀ v ∈ variants, v.2 = .unit) (h_variant : variant ∈ variants.map (·.1)) :
      MapKey (.enum name variants) (.unitVariant variant)

/-- The shapes of keys that are read from a name. -/
def Shape.takesName : Shape → Bool
  | .scalar .text | .scalar .char | .enum _ _ => true
  | _ => false

namespace MapKey

variable {key : Shape} {k l : Typed}

theorem node_eq (h : MapKey key k) : (key.data k).node = .ok (.scalar k.keyText) := by
  cases h with
  | scalar | unitVariant => rfl

/-- Different keys have different texts. -/
theorem eq_of_keyText_eq (h_k : MapKey key k) (h_l : MapKey key l)
    (h_text : k.keyText = l.keyText) : k = l := by
  cases h_k with
  | @scalar type value h_value h_type =>
    cases h_l with
    | @scalar _ other h_other =>
      have h_value_read := ScalarType.parse?_render (h_value.symm ▸ h_type)
      have h_other_read := ScalarType.parse?_render (h_other.symm ▸ h_type)
      rw [h_value] at h_value_read
      rw [h_other, ← show value.render = other.render from h_text, h_value_read] at h_other_read
      rw [Option.some.inj h_other_read]
  | unitVariant =>
    cases h_l with
    | unitVariant => exact congrArg Typed.unitVariant h_text

theorem lookup_unit {variants : List (String × Payload)} {variant : String}
    (h_units : ∀ v ∈ variants, v.2 = .unit) (h_variant : variant ∈ variants.map (·.1)) :
    variants.lookup variant = some .unit := by
  induction variants with
  | nil => cases h_variant
  | cons first variants ih =>
    rw [List.lookup_cons]
    by_cases h_first : variant = first.1
    · rw [h_first, beq_self_eq_true, h_units first List.mem_cons_self]
    · rw [beq_false_of_ne h_first]
      exact ih (fun v h_mem => h_units v (List.mem_cons_of_mem _ h_mem))
        ((List.mem_cons.mp h_variant).resolve_left h_first)

/-- A key is read from its text if its shape takes names, and is refused otherwise. -/
theorem readName_eq (h : MapKey key k) :
    key.readName k.keyText =
      if key.takesName then .ok k else .error (.wrongType (.string k.keyText) key.wanted) := by
  cases h with
  | @scalar type value h_value h_type =>
    subst h_value
    cases value with
    | single | double => cases h_type
    | bool | int | text => rfl
    | char c => simp [Shape.readName, Typed.keyText, Scalar.render, Scalar.type, onlyChar?,
        Shape.takesName]
  | unitVariant h_units h_variant =>
    simp only [Shape.readName, Shape.variantOfName, Typed.keyText, lookup_unit h_units h_variant]
    rfl

end MapKey

/-! ## Values -/

/-- The values that a map keeps under a key: the storable ones, and those made up of them and
of floating-point numbers. -/
inductive MapValue : Shape → Typed → Prop where
  | storable {shape : Shape} {x : Typed} (h : Storable shape x) : MapValue shape x
  | scalar {type : ScalarType} {value : Scalar} (h_value : value.type = type)
      (h_nan : value.isNaN = false) : MapValue (.scalar type) (.scalar value)
  | some {shape : Shape} {x : Typed} (h_option : shape.isOption = false) (h : MapValue shape x) :
      MapValue (.option shape) (.some x)
  | newtype {name : String} {shape : Shape} {x : Typed} (h_option : shape.isOption = false)
      (h : MapValue shape x) : MapValue (.newtype name shape) (.newtype x)
  | seq {item : Shape} {items : List Typed} (h_items : items ≠ [])
      (h_item : item.isSequence = false) (h_present : ∀ x ∈ items, x.isAbsent = false)
      (h : ∀ x ∈ items, MapValue item x) : MapValue (.seq item) (.list items)
  | struct {name : String} {fields : List TypedField} {defaulted : List String}
      (h_names : (fields.map (·.name)).Nodup)
      (h : ∀ field ∈ fields, MapValue field.shape field.value) :
      MapValue (.struct name (TypedField.declared fields) defaulted)
        (.struct (TypedField.held fields))

theorem MapValue.kept {shape : Shape} {x : Typed} (h : MapValue shape x) : Kept shape x := by
  induction h with
  | storable h => exact h.kept
  | scalar h_value h_nan =>
    subst h_value
    exact .scalar (Scalar.parse?_render h_nan)
  | some h_option _ ih => exact .option h_option ih
  | newtype h_option _ ih => exact .newtype h_option ih
  | seq h_items h_item h_present _ ih => exact .seq h_items h_item h_present ih
  | struct h_names _ ih => exact .struct h_names ih

/-! ## Maps -/

namespace Shape

variable {key shape : Shape} {entries : List (Typed × Typed)}

/-- Distinct keys have distinct texts. -/
theorem nodup_keyTexts (h_keys : ∀ entry ∈ entries, MapKey key entry.1)
    (h_distinct : (entries.map (·.1)).Nodup) :
    (entries.map fun entry => entry.1.keyText).Nodup := by
  have h_texts := h_distinct.map_on (f := Typed.keyText) (by
    simp only [List.mem_map]
    rintro _ ⟨e, h_e, rfl⟩ _ ⟨e', h_e', rfl⟩ h_text
    exact (h_keys e h_e).eq_of_keyText_eq (h_keys e' h_e') h_text)
  rwa [List.map_map] at h_texts

/-- A map with distinct keys is a document in which each key stands as its text.  It is read
from that document if its keys are taken for names; otherwise the text of the first key is
refused. -/
theorem readAs_map (h_keys : ∀ entry ∈ entries, MapKey key entry.1)
    (h_distinct : (entries.map (·.1)).Nodup)
    (h_present : ∀ entry ∈ entries, entry.2.isAbsent = false)
    (h_values : ∀ entry ∈ entries, MapValue shape entry.2) :
    ∃ f, ((Shape.map key shape).data (.map entries)).toFields = .ok f ∧
      f.grouped.map (·.1) = entries.map (fun entry => entry.1.keyText) ∧
      f.readAs (.map key shape) =
        if key.takesName then .ok (.map entries)
        else
          match entries with
          | [] => .ok (.map [])
          | (k, _) :: _ => .error (.wrongType (.string k.keyText) key.wanted) := by
  have h_nodes : ∀ entry ∈ entries, (key.data entry.1).node = .ok (.scalar entry.1.keyText) :=
    fun entry h_mem => (h_keys entry h_mem).node_eq
  have h_texts := nodup_keyTexts h_keys h_distinct
  have h_kept : ∀ entry ∈ entries, Kept shape entry.2 :=
    fun entry h_mem => (h_values entry h_mem).kept
  obtain ⟨f, h_node, h_grouped⟩ := Kept.exists_grouped h_nodes h_texts h_present h_kept
  refine ⟨f, by rw [Data.toFields, h_node], ?_, ?_⟩
  · rw [← List.forall₂_eq_eq_eq, List.forall₂_map_left_iff, List.forall₂_map_right_iff]
    exact h_grouped.flip.imp fun _ _ h_group => h_group.1
  · split
    · rename_i h_takes
      refine read_grouped (fun entry h_mem => ?_) h_grouped
      rw [(h_keys entry h_mem).readName_eq, if_pos h_takes]
    · rename_i h_takes
      rw [Fields.readAs, read, Offer.last, Value.asObject, ok_bind]
      generalize f.grouped = groups at h_grouped
      cases h_grouped with
      | nil => rfl
      | @cons entry group _ _ h_group _ =>
        obtain ⟨name, values⟩ := group
        obtain rfl : name = entry.1.keyText := h_group.1
        have h_refused := (h_keys entry List.mem_cons_self).readName_eq
        rw [if_neg h_takes] at h_refused
        rw [List.mapM_cons]
        simp only [h_refused]
        rfl

/-- A band has a gain, some steps, and perhaps a note. -/
def bandFields (gain : UInt64) : List TypedField :=
  [⟨"gain", .scalar .double, .scalar (.double gain)⟩,
    ⟨"steps", .seq (.scalar .char), .list [.scalar (.char 'a'), .scalar (.char 'b')]⟩,
    ⟨"note", .option (.scalar .text), .absent⟩]

/-- Bands by level. -/
def bandsShape : Shape :=
  .map (.enum "Level" [("Low", .unit), ("High", .unit)])
    (.struct "Band" (TypedField.declared (bandFields 0)) [])

theorem mapValue_band {gain : UInt64} (h : (Scalar.double gain).isNaN = false) :
    MapValue (.struct "Band" (TypedField.declared (bandFields 0)) [])
      (.struct (TypedField.held (bandFields gain))) := by
  have h_steps :
      Storable (.seq (.scalar .char)) (.list [.scalar (.char 'a'), .scalar (.char 'b')]) := by
    refine .seq (by simp) rfl rfl ?_
    simp only [List.forall_mem_cons]
    exact ⟨@Storable.scalar (.char 'a') rfl, @Storable.scalar (.char 'b') rfl, by simp⟩
  refine @MapValue.struct _ (bandFields gain) _ (by simp [bandFields]) ?_
  simp only [bandFields, List.forall_mem_cons]
  exact ⟨.scalar rfl h, .storable h_steps, .storable (.absent rfl), by simp⟩

/-- Levels are names, so bands by level come back. -/
theorem readAs_map_bands :
    ∃ f, (bandsShape.data (.map
        [(.unitVariant "High", .struct (TypedField.held (bandFields 0x3ff8000000000000))),
          (.unitVariant "Low", .struct (TypedField.held (bandFields 0)))])).toFields = .ok f ∧
      f.readAs bandsShape = .ok (.map
        [(.unitVariant "High", .struct (TypedField.held (bandFields 0x3ff8000000000000))),
          (.unitVariant "Low", .struct (TypedField.held (bandFields 0)))]) := by
  have h_level {level : String} (h : level ∈ ["Low", "High"]) :
      MapKey (.enum "Level" [("Low", .unit), ("High", .unit)]) (.unitVariant level) :=
    .unitVariant (by simp) h
  have h_half : (Scalar.double 0x3ff8000000000000).isNaN = false := rfl
  have h_zero : (Scalar.double 0).isNaN = false := rfl
  obtain ⟨f, h_fields, -, h_read⟩ := @readAs_map
    (.enum "Level" [("Low", .unit), ("High", .unit)])
    (.struct "Band" (TypedField.declared (bandFields 0)) [])
    [(.unitVariant "High", .struct (TypedField.held (bandFields 0x3ff8000000000000))),
      (.unitVariant "Low", .struct (TypedField.held (bandFields 0)))]
    (by simp [h_level]) (by simp) (by simp [Typed.isAbsent])
    (by simp [mapValue_band h_half, mapValue_band h_zero])
  exact ⟨f, h_fields, h_read⟩

/-- The text of an integer is refused as a key. -/
theorem readAs_map_integer :
    MapKey (.scalar (.int ⟨true, .w32⟩)) (.scalar (.int ⟨true, .w32⟩ ⟨1, by decide⟩)) ∧
    MapValue (.scalar .text) (.scalar (.text "a")) ∧
    ((Shape.map (.scalar (.int ⟨true, .w32⟩)) (.scalar .text)).data
      (.map [(.scalar (.int ⟨true, .w32⟩ ⟨1, by decide⟩), .scalar (.text "a"))])).toFields =
        .ok [("1", .text "a")] ∧
    Fields.readAs [("1", .text "a")] (.map (.scalar (.int ⟨true, .w32⟩)) (.scalar .text)) =
      .error (.wrongType (.string "1") "i32") :=
  ⟨.scalar rfl rfl, .scalar rfl rfl, rfl, rfl⟩

end Shape
end PropertyText
