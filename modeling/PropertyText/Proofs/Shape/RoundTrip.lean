/-
  PropertyText.Proofs.Shape.RoundTrip

  A typed value that is made a document is read from it again, and from the document's
  text.  Main statement: `Shape.readAs_data`.
-/
import PropertyText.Proofs.Fields.RoundTrip
import PropertyText.Proofs.Shape.Struct

namespace PropertyText

/-! ## Sequences, maps and variants -/

theorem Data.nodes_eq_mapM (items : List Data) : nodes items = items.mapM node := by
  induction items with
  | nil => rfl
  | cons item items ih => rw [nodes, ih, List.mapM_cons]

/-- The text of a value that serves as a key. -/
def Typed.keyText : Typed → String
  | .scalar value => value.render
  | .unitVariant name => name
  | _ => ""

/-- Under keys that are single texts, the entries of a map are the fields of a struct. -/
theorem Data.entryFields_of_keys {α : Type} {key : α → Data} (value : α → Data)
    {name : α → String} {entries : List α} (h : ∀ e ∈ entries, (key e).node = .ok (.scalar (name e))) :
    entryFields (entries.map fun e => (key e, value e)) =
      namedFields (entries.map fun e => (name e, value e)) := by
  induction entries with
  | nil => rfl
  | cons e entries ih =>
    rw [List.map_cons, entryFields, h e List.mem_cons_self,
      ih fun e h_mem => h e (List.mem_cons_of_mem _ h_mem)]
    rfl

/-- An object whose properties all bear the name of a variant is read as its payload. -/
theorem Shape.read_variant {name : String} {variants : List (String × Payload)}
    {variant : String} {payload : Payload} (h_variant : variants.lookup variant = some payload)
    {values : List Value} (h_values : values ≠ []) :
    (Shape.enum name variants).read (.one (.object (values.map (variant, ·)))) =
      readPayload variant values payload := by
  have h_named : Value.namedVariant (values.map (variant, ·)) = .ok (variant, values) := by
    cases values with
    | nil => exact absurd rfl h_values
    | cons first rest => simp [Value.namedVariant, Function.comp_def]
  simp only [read, Offer.last, h_named, ok_bind]
  exact readVariant_of_lookup h_variant _ values

/-- A map is read where keys are read from names, and values from what stands under them. -/
theorem Shape.read_grouped {key shape : Shape} {entries : List (Typed × Typed)} {f : Fields}
    (h_read : ∀ entry ∈ entries, key.readName entry.1.keyText = .ok entry.1)
    (h_grouped : List.Forall₂ (fun entry group =>
      group.1 = entry.1.keyText ∧ shape.read (.all group.2) = .ok entry.2) entries f.grouped) :
    (Shape.map key shape).read (.one (.object f)) = .ok (.map entries) := by
  have h_entries : (f.grouped.mapM fun group => do
      let k ← key.readName group.1
      let v ← shape.read (.all group.2)
      return (k, v)) = .ok entries := by
    apply mapM_eq_ok
    refine ((List.forall₂_and_left _ _).mpr ⟨h_read, h_grouped⟩).imp ?_
    rintro entry group ⟨h_key, h_name, h_value⟩
    rw [h_name, h_key, h_value]
    rfl
  rw [read, Offer.last, Value.asObject, ok_bind]
  exact congrArg (Except.map Typed.map) h_entries

namespace Kept

/-- A scalar is read from its text. -/
theorem scalar {value : Scalar} (h : value.type.parse? value.render = some value) :
    Kept (.scalar value.type) (.scalar value) := by
  refine ⟨_, _, rfl, Stored.one (v := .text value.render) rfl ?_ rfl (.inl rfl)⟩
  simp [Shape.read, Offer.last, Value.readScalar, Value.asText, h]
  rfl

theorem option {shape : Shape} {x : Typed} (h_option : shape.isOption = false) (h : Kept shape x) :
    Kept (.option shape) (.some x) := by
  obtain ⟨node, values, h_node, h_stored⟩ := h
  refine ⟨node, values, h_node, h_stored.wrap h_option rfl ?_ rfl (.inl rfl)⟩
  intro offer h_read
  simp [Shape.read, h_read]

theorem newtype {name : String} {shape : Shape} {x : Typed} (h_option : shape.isOption = false)
    (h : Kept shape x) : Kept (.newtype name shape) (.newtype x) := by
  obtain ⟨node, values, h_node, h_stored⟩ := h
  refine ⟨node, values, h_node, h_stored.wrap h_option rfl ?_ rfl (.inr rfl)⟩
  intro offer h_read
  simp [Shape.read, h_read]

/-- A sequence is read from the values of its elements. -/
theorem seq {item : Shape} {items : List Typed} (h_items : items ≠ [])
    (h_item : item.isSequence = false) (h_present : ∀ x ∈ items, x.isAbsent = false)
    (h : ∀ x ∈ items, Kept item x) : Kept (.seq item) (.list items) := by
  obtain ⟨values, h_values⟩ := exists_forall₂
    fun x h_mem => (h x h_mem).exists_value h_item (h_present x h_mem)
  have h_nodes : Data.nodes (items.map fun x => item.data x) = .ok (values.map Value.node) := by
    rw [Data.nodes_eq_mapM]
    apply mapM_eq_ok
    rw [List.forall₂_map_left_iff, List.forall₂_map_right_iff]
    exact List.Forall₂.flip (h_values.imp fun _ _ h => h.1)
  have h_read : (values.mapM fun v => item.read (.one v)) = .ok items :=
    mapM_eq_ok (h_values.imp fun _ _ h => h.2)
  have h_ne : values ≠ [] := by
    rintro rfl
    cases h_values
    exact h_items rfl
  refine ⟨_, _, ?_, .many h_ne rfl ?_ rfl rfl⟩
  · rw [Shape.data, Data.node, h_nodes]
    rfl
  · rw [Shape.read, Offer.sequence, ok_bind, h_read]
    rfl

section Map

variable {key shape : Shape} {entries : List (Typed × Typed)}
  (h_keys : ∀ entry ∈ entries, (key.data entry.1).node = .ok (.scalar entry.1.keyText))
  (h_names : (entries.map fun entry => entry.1.keyText).Nodup)
  (h_present : ∀ entry ∈ entries, entry.2.isAbsent = false)
  (h : ∀ entry ∈ entries, Kept shape entry.2)

include h_keys h_names h_present h

/-- The entries of a map leave an object behind, and each value is read from the values of its
key's text. -/
theorem exists_grouped :
    ∃ f, ((Shape.map key shape).data (.map entries)).node = .ok (.object f) ∧
      List.Forall₂ (fun entry group =>
        group.1 = entry.1.keyText ∧ shape.read (.all group.2) = .ok entry.2) entries f.grouped := by
  -- The entries are fields of one shape, and none of them is left out.
  let fields : List TypedField := entries.map fun entry => ⟨entry.1.keyText, shape, entry.2⟩
  have h_fields : ∀ field ∈ fields, Kept field.shape field.value := List.forall_mem_map.mpr h
  have h_all : TypedField.present fields = fields := by
    rw [TypedField.present, List.filter_eq_self, List.forall_mem_map]
    intro entry h_mem
    rw [h_present entry h_mem]
    rfl
  obtain ⟨f, h_named, h_filled⟩ :=
    TypedField.exists_grouped (by simpa [fields, Function.comp_def] using h_names) h_fields
  rw [h_all, List.forall₂_map_left_iff] at h_filled
  refine ⟨f, ?_, h_filled.imp fun _ _ h_group => ⟨h_group.name_eq, h_group.read_eq⟩⟩
  have h_entries := Data.entryFields_of_keys (fun entry => shape.data entry.2) h_keys
  rw [List.map_map] at h_named
  rw [Shape.data, Data.node, h_entries]
  exact congrArg (Except.map Node.object) h_named

/-- A map is read from the object that its entries leave behind if the keys are read from
their texts. -/
theorem map (h_read : ∀ entry ∈ entries, key.readName entry.1.keyText = .ok entry.1) :
    Kept (.map key shape) (.map entries) := by
  obtain ⟨f, h_node, h_grouped⟩ := exists_grouped h_keys h_names h_present h
  exact ⟨_, _, h_node, Stored.one (v := .object f) rfl (Shape.read_grouped h_read h_grouped) rfl
    (.inr ⟨f, rfl⟩)⟩

end Map

/-- A struct with distinct names is read from the object that its fields leave behind. -/
theorem struct {name : String} {fields : List TypedField} {defaulted : List String}
    (h_names : (fields.map (·.name)).Nodup)
    (h : ∀ field ∈ fields, Kept field.shape field.value) :
    Kept (.struct name (TypedField.declared fields) defaulted)
      (.struct (TypedField.held fields)) := by
  obtain ⟨f, h_fields, found, h_found, h_arrange⟩ := TypedField.exists_struct h_names h
  refine ⟨_, _, ?_, Stored.one (v := .object f) rfl ?_ rfl (.inr ⟨f, rfl⟩)⟩
  · rw [Shape.data, Data.node, h_fields]
    rfl
  · rw [Shape.read, Offer.last, Value.asObject, ok_bind, h_found, ok_bind, h_arrange]
    rfl

variable {name : String} {variants : List (String × Payload)} {variant : String}

theorem unitVariant (h_variant : variants.lookup variant = some .unit) :
    Kept (.enum name variants) (.unitVariant variant) := by
  refine ⟨_, _, rfl, Stored.one (v := .text variant) rfl ?_ rfl (.inl rfl)⟩
  simp only [Shape.read, Offer.last, Shape.variantOfName, h_variant]
  rfl

theorem newtypeVariant {shape : Shape} {x : Typed}
    (h_variant : variants.lookup variant = some (.newtype shape))
    (h_option : shape.isOption = false) (h : Kept shape x) :
    Kept (.enum name variants) (.variant variant x) := by
  obtain ⟨node, values, h_node, h_stored⟩ := h
  have h_values : values ≠ [] := h_stored.ne_nil h_option
  have h_payload : node.payload variant = .ok (.object (values.map (variant, ·))) := by
    rw [Node.payload, h_stored.properties, ok_bind, if_neg (by simpa using h_values)]
    rfl
  refine ⟨_, _, ?_, Stored.one (v := .object (values.map (variant, ·))) rfl ?_ rfl
    (.inr ⟨_, rfl⟩)⟩
  · rw [Shape.data, Shape.variantData_of_lookup h_variant, Shape.payloadData, Data.node, h_node,
      ok_bind, h_payload]
    rfl
  · rw [Shape.read_variant h_variant h_values, Shape.readPayload, h_stored.read_all h_values]
    rfl

theorem structVariant {fields : List TypedField}
    (h_variant : variants.lookup variant = some (.struct (TypedField.declared fields)))
    (h_names : (fields.map (·.name)).Nodup)
    (h : ∀ field ∈ fields, Kept field.shape field.value) :
    Kept (.enum name variants) (.variant variant (.struct (TypedField.held fields))) := by
  obtain ⟨f, h_fields, found, h_found, h_arrange⟩ := TypedField.exists_struct h_names h
  refine ⟨_, _, ?_, Stored.one (v := .object [(variant, .object f)]) rfl ?_ rfl
    (.inr ⟨_, rfl⟩)⟩
  · rw [Shape.data, Shape.variantData_of_lookup h_variant, Shape.payloadData, Data.node, h_fields]
    rfl
  · have h_payload : (Shape.enum name variants).read (.one (.object [(variant, .object f)])) = _ :=
      Shape.read_variant h_variant (List.cons_ne_nil (.object f) [])
    rw [Shape.readPayload, Offer.last, List.getLast?_singleton, Option.getD_some, Value.asObject,
      ok_bind, h_found, ok_bind, h_arrange] at h_payload
    exact h_payload

end Kept

/-! ## Values of every shape -/

namespace Storable

/-- Every storable value is read from what it leaves behind. -/
theorem kept {shape : Shape} {x : Typed} (h : Storable shape x) : Kept shape x := by
  induction h with
  | scalar h_type => exact .scalar (ScalarType.parse?_render h_type)
  | tree v =>
    refine ⟨_, _, v.node_toData, .one rfl ?_ rfl ?_⟩
    · simp [Shape.read, Offer.data, Offer.last, Value.toValue_toData]
    · cases v with
      | text => exact .inl rfl
      | object f => exact .inr ⟨f, rfl⟩
  | document f =>
    refine ⟨_, _, Value.node_toData (.object f), .one rfl ?_ rfl (.inr ⟨f, rfl⟩)⟩
    simp [Shape.read, Offer.data, Offer.last, Data.importFields, Value.toValue_toData,
      Value.toFields]
  | absent => exact ⟨_, _, rfl, .absent rfl rfl⟩
  | some h_option _ ih => exact .option h_option ih
  | newtype h_option _ ih => exact .newtype h_option ih
  | seq h_items h_item h_option _ ih =>
    exact .seq h_items h_item (fun x h_mem => (ih x h_mem).present h_option) ih
  | map h_names h_option _ ih =>
    refine .map ?_ (by simpa [Function.comp_def, Typed.keyText, Scalar.render] using h_names)
      ?_ ?_ ?_ <;> rw [List.forall_mem_map]
    · exact fun _ _ => rfl
    · exact fun entry h_mem => (ih entry h_mem).present h_option
    · exact ih
    · exact fun _ _ => rfl
  | struct h_names _ ih => exact .struct h_names ih
  | unitVariant h_variant => exact .unitVariant h_variant
  | newtypeVariant h_variant h_option _ ih => exact .newtypeVariant h_variant h_option ih
  | structVariant h_variant h_names _ ih => exact .structVariant h_variant h_names ih

end Storable

namespace Shape

/-- A storable value that is a struct, a map, a variant with a payload or an object is read
from the document that it is, and from the document's text unless there is a NUL character in
it. -/
theorem readAs_data {shape : Shape} {x : Typed} (h : Storable shape x)
    (h_document : x.isDocument = true) :
    ∃ f, (shape.data x).toFields = .ok f ∧ f.readAs shape = .ok x ∧
      (f.NulFree → ∀ (w : WriterOptions) (o : ReaderOptions), ∃ text : String,
        (shape.data x).document w = .ok (Utf8.encode text) ∧
          shape.readText (Utf8.encode text) o = .ok x) := by
  obtain ⟨node, values, h_node, h_stored⟩ := h.kept
  cases h_stored with
  | absent _ h_x => rw [h_x] at h_document; cases h_document
  | many _ _ _ _ h_none => rw [h_document] at h_none; cases h_none
  | one _ h_read _ h_object =>
    obtain ⟨f, rfl⟩ := h_object.resolve_left (by simp [h_document])
    have h_fields : (shape.data x).toFields = .ok f := by
      rw [Data.toFields, h_node]
      rfl
    refine ⟨f, h_fields, h_read, ?_⟩
    intro h_nul w o
    have h_encode : Utf8.encode (Utf8.decode (Fields.document f w)) = Fields.document f w :=
      (Fields.isText_document f w).encode_decode
    refine ⟨Utf8.decode (Fields.document f w), ?_, ?_⟩
    · rw [h_encode, Data.document_of_toFields h_fields]
    · rw [h_encode, readText, Fields.ofBytes_document_of_nulFree h_nul, ok_bind, Fields.readAs,
        h_read]
      rfl

/-- A step that is given by its name, by a list of numbers, or by fields. -/
def stepShape : Shape :=
  .enum "Step" [("Stop", .unit), ("Turn", .newtype (.seq (.scalar (.int ⟨true, .w8⟩)))),
    ("Move", .struct [("by", .option (.scalar .char)), ("fast", .scalar .bool)])]

/-- The fields of a plan: steps of every kind, a limit that is left out, and marks by name. -/
def planFields : List TypedField :=
  [⟨"step", .seq stepShape,
      .list [.unitVariant "Stop",
        .variant "Turn" (.list [.scalar (.int ⟨true, .w8⟩ ⟨-5, by decide⟩),
          .scalar (.int ⟨true, .w8⟩ ⟨7, by decide⟩)]),
        .variant "Move" (.struct [("by", .some (.scalar (.char 'x'))),
          ("fast", .scalar (.bool true))])]⟩,
    ⟨"limit", .option (.scalar .text), .absent⟩,
    ⟨"marks", .map (.scalar .text) (.newtype "Mark" .tree),
      .map [(.scalar (.text "a"), .newtype (.tree (.text "1"))),
        (.scalar (.text ""), .newtype (.tree (.object [("b", .text ""), ("b", .text " ")])))]⟩]

theorem storable_plan : ∀ field ∈ planFields, Storable field.shape field.value := by
  have h_number (n : IntType.Value ⟨true, .w8⟩) :
      Storable (.scalar (.int ⟨true, .w8⟩)) (.scalar (.int ⟨true, .w8⟩ n)) :=
    @Storable.scalar (.int _ n) rfl
  have h_turn (m n : IntType.Value ⟨true, .w8⟩) : Storable stepShape
      (.variant "Turn" (.list [.scalar (.int ⟨true, .w8⟩ m), .scalar (.int ⟨true, .w8⟩ n)])) :=
    .newtypeVariant rfl rfl (.seq (by simp) rfl rfl (by simp [h_number]))
  have h_move : Storable stepShape (.variant "Move" (.struct (TypedField.held
      [⟨"by", .option (.scalar .char), .some (.scalar (.char 'x'))⟩,
        ⟨"fast", .scalar .bool, .scalar (.bool true)⟩]))) := by
    refine .structVariant rfl (by decide) ?_
    simp only [List.forall_mem_cons]
    exact ⟨.some rfl (@Storable.scalar (.char 'x') rfl), @Storable.scalar (.bool true) rfl,
      by simp⟩
  have h_mark (v : Value) : Storable (.newtype "Mark" .tree) (.newtype (.tree v)) :=
    .newtype rfl (.tree v)
  simp only [planFields, List.forall_mem_cons]
  refine ⟨.seq (by simp) rfl rfl ?_, .absent rfl, ?_, by simp⟩
  · simp only [List.forall_mem_cons]
    exact ⟨.unitVariant rfl, h_turn _ _, h_move, by simp⟩
  · exact @Storable.map _ [("a", _), ("", _)] (by decide) rfl (by simp [h_mark])

/-- The plan is read from the text of the document that it is. -/
theorem readAs_data_plan :
    ∃ text : String,
      (Shape.data (.struct "Plan" (TypedField.declared planFields) [])
        (.struct (TypedField.held planFields))).document {} = .ok (Utf8.encode text) ∧
      Shape.readText (.struct "Plan" (TypedField.declared planFields) []) (Utf8.encode text) {} =
        .ok (.struct (TypedField.held planFields)) := by
  have h_plan : Storable (.struct "Plan" (TypedField.declared planFields) [])
      (.struct (TypedField.held planFields)) := .struct (by decide) storable_plan
  obtain ⟨f, h_fields, -, h_text⟩ := readAs_data h_plan rfl
  have h_f : f =
      [("step", .text "Stop"),
        ("step", .object [("Turn", .text "-5"), ("Turn", .text "7")]),
        ("step", .object [("Move", .object [("by", .text "x"), ("fast", .text "true")])]),
        ("marks", .object [("a", .text "1"),
          ("", .object [("b", .text ""), ("b", .text " ")])])] :=
    (Except.ok.inj h_fields).symm
  have h_nul : f.NulFree := by
    rw [h_f]
    simp [Fields.NulFree]
  exact h_text h_nul {} {}

end Shape
end PropertyText
