/-
  PropertyText.Proofs.Shape.Struct

  The fields of a struct on their way out and back in.  Those that are present leave groups
  of values behind from which they are read again, in the declared order and with the others
  found missing: `TypedField.exists_struct`.
-/
import Mathlib.Data.List.Nodup
import PropertyText.Proofs.Except
import PropertyText.Proofs.Shape.Storable

namespace PropertyText

/-! ## Finding fields and variants by name -/

/-- A search by name along a table comes to the entry that a lookup finds. -/
theorem search_of_lookup {α β : Type} (search : List (String × α) → β) (found : α → β)
    {table : List (String × α)} {name : String} {a : α}
    (h_cons : ∀ other b rest, search ((other, b) :: rest) =
      if other = name then found b else search rest)
    (h : table.lookup name = some a) : search table = found a := by
  induction table with
  | nil => cases h
  | cons first table ih =>
    obtain ⟨other, b⟩ := first
    rw [h_cons]
    by_cases h_name : other = name
    · rw [List.lookup_cons, h_name, beq_self_eq_true] at h
      cases h
      rw [if_pos h_name]
    · rw [List.lookup_cons, beq_false_of_ne (Ne.symm h_name)] at h
      rw [if_neg h_name, ih h]

namespace Shape

theorem readField_of_lookup {fields : List (String × Shape)} {name : String} {shape : Shape}
    (h : fields.lookup name = some shape) (offer : Offer) :
    readField name offer fields = return some (name, ← shape.read offer) :=
  search_of_lookup (readField name offer)
    (fun shape => return some (name, ← shape.read offer)) (fun _ _ _ => by rw [readField]) h

variable {variants : List (String × Payload)} {variant : String} {payload : Payload}

theorem readVariant_of_lookup (h : variants.lookup variant = some payload)
    (names : List String) (values : List Value) :
    readVariant names variant values variants = readPayload variant values payload :=
  search_of_lookup (readVariant names variant values) (readPayload variant values)
    (fun _ _ _ => by rw [readVariant]) h

theorem variantData_of_lookup (h : variants.lookup variant = some payload) (x : Typed) :
    variantData variant x variants = payloadData variant x payload :=
  search_of_lookup (variantData variant x) (payloadData variant x)
    (fun _ _ _ => by rw [variantData]) h

end Shape

/-! ## Structs -/

namespace TypedField

variable {fields : List TypedField} {field : TypedField}

theorem fieldData_eq (fields : List TypedField) :
    Shape.fieldData (declared fields) (held fields) =
      fields.map fun field => (field.name, field.shape.data field.value) := by
  induction fields with
  | nil => rfl
  | cons field fields ih =>
    rw [declared, held, List.map_cons, List.map_cons, Shape.fieldData, ← declared, ← held, ih]
    rfl

/-- What stands under a field's name in a table of distinct fields. -/
theorem lookup_of_mem {α : Type} (of : TypedField → α) (h_names : (fields.map (·.name)).Nodup)
    (h_mem : field ∈ fields) :
    (fields.map fun field => (field.name, of field)).lookup field.name = some (of field) := by
  apply (lookup_eq_some_iff_mem _).mpr
  · exact List.mem_map_of_mem h_mem
  · rwa [List.map_map]

/-- The fields that are not left out. -/
def present (fields : List TypedField) : List TypedField :=
  fields.filter fun field => !field.value.isAbsent

theorem lookup_present_of_absent (h_names : (fields.map (·.name)).Nodup)
    (h_mem : field ∈ fields) (h_absent : field.value.isAbsent = true) :
    (held (present fields)).lookup field.name = none := by
  rw [List.lookup_eq_none_iff]
  intro entry h_entry
  obtain ⟨other, h_other, rfl⟩ := List.mem_map.mp h_entry
  rw [present, List.mem_filter, Bool.not_eq_true'] at h_other
  rw [bne_iff_ne]
  -- The names are distinct, so another field of the name would be this one.
  intro h_name
  rw [List.inj_on_of_nodup_map h_names h_mem h_other.1 h_name, h_other.2] at h_absent
  cases h_absent

/-- Fields are arranged where each of them is found, or is an option and is not. -/
theorem arrange_of_found {found : List (String × Typed)} (h : ∀ field ∈ fields,
      found.lookup field.name = some field.value ∨
        found.lookup field.name = none ∧ field.value = .absent ∧ field.shape.isOption = true)
    (defaulted : List String) :
    Shape.arrange defaulted found (declared fields) = .ok (held fields) := by
  induction fields with
  | nil => rfl
  | cons field fields ih =>
    have h_rest := ih fun field h_mem => h field (List.mem_cons_of_mem _ h_mem)
    rw [declared] at h_rest ⊢
    rw [List.map_cons, Shape.arrange, h_rest]
    cases h field List.mem_cons_self with
    | inl h_found =>
      rw [h_found]
      rfl
    | inr h_missing =>
      obtain ⟨h_none, h_absent, h_option⟩ := h_missing
      rw [h_none]
      simp [h_option, held, h_absent]

/-- The fields that are left out are found missing, and all the others are in their place. -/
theorem arrange_present (h_names : (fields.map (·.name)).Nodup)
    (h_absent : ∀ field ∈ fields, field.value.isAbsent = true → field.shape.isOption = true)
    (defaulted : List String) :
    Shape.arrange defaulted (held (present fields)) (declared fields) = .ok (held fields) := by
  apply arrange_of_found
  intro field h_mem
  cases h_value : field.value.isAbsent with
  | true =>
    have h_none := lookup_present_of_absent h_names h_mem h_value
    exact .inr ⟨h_none, Typed.eq_absent h_value, h_absent field h_mem h_value⟩
  | false =>
    have h_present : field ∈ present fields := by simp [present, h_mem, h_value]
    have h_distinct : ((present fields).map (·.name)).Nodup :=
      h_names.sublist (List.filter_sublist.map _)
    exact .inl (lookup_of_mem TypedField.value h_distinct h_present)

/-- The values of a name from which a field is read. -/
structure FilledBy (field : TypedField) (group : String × List Value) : Prop where
  name_eq : group.1 = field.name
  ne_nil : group.2 ≠ []
  read_eq : field.shape.read (.all group.2) = .ok field.value

/-- The parts of fields leave behind the values of each field that is present, and nothing
else. -/
theorem exists_ofGroups (h : ∀ field ∈ fields, Kept field.shape field.value) :
    ∃ groups, Data.namedFields
        (fields.map fun field => (field.name, field.shape.data field.value)) =
          .ok (Fields.ofGroups groups) ∧
      List.Forall₂ FilledBy (present fields) groups := by
  induction fields with
  | nil => exact ⟨[], rfl, .nil⟩
  | cons field fields ih =>
    obtain ⟨groups, h_rest, h_groups⟩ :=
      ih fun field h_mem => h field (List.mem_cons_of_mem _ h_mem)
    obtain ⟨node, values, h_node, h_stored⟩ := h field List.mem_cons_self
    have h_fields : Data.namedFields ((field :: fields).map fun field =>
        (field.name, field.shape.data field.value)) =
          .ok (values.map (field.name, ·) ++ Fields.ofGroups groups) := by
      rw [List.map_cons, Data.namedFields, h_node, h_rest, ok_bind, h_stored.properties]
      rfl
    cases h_absent : field.value.isAbsent with
    | true =>
      have h_values : values = [] := by
        rw [← List.isEmpty_iff, h_stored.isEmpty_eq, h_absent]
      refine ⟨groups, by rw [h_fields, h_values]; rfl, ?_⟩
      rwa [present, List.filter_cons_of_neg (by simp [h_absent])]
    | false =>
      have h_values : values ≠ [] := by
        rw [← List.isEmpty_eq_false_iff, h_stored.isEmpty_eq, h_absent]
      refine ⟨(field.name, values) :: groups, by rw [h_fields]; rfl, ?_⟩
      rw [present, List.filter_cons_of_pos (by simp [h_absent])]
      exact .cons ⟨rfl, h_values, h_stored.read_all h_values⟩ h_groups

theorem names_of_filled {groups : List (String × List Value)}
    (h : List.Forall₂ FilledBy fields groups) : groups.map (·.1) = fields.map (·.name) := by
  induction h with
  | nil => rfl
  | cons h_group _ ih => rw [List.map_cons, List.map_cons, h_group.name_eq, ih]

theorem ne_nil_of_filled {groups : List (String × List Value)}
    (h : List.Forall₂ FilledBy fields groups) : ∀ group ∈ groups, group.2 ≠ [] := by
  induction h with
  | nil => simp
  | cons h_group _ ih => exact List.forall_mem_cons.mpr ⟨h_group.ne_nil, ih⟩

/-- Fields with distinct names leave an object behind, and each field that is present is
read from the group of its name. -/
theorem exists_grouped (h_names : (fields.map (·.name)).Nodup)
    (h : ∀ field ∈ fields, Kept field.shape field.value) :
    ∃ f, Data.namedFields (fields.map fun field => (field.name, field.shape.data field.value)) =
        .ok f ∧ List.Forall₂ FilledBy (present fields) f.grouped := by
  obtain ⟨groups, h_fields, h_groups⟩ := exists_ofGroups h
  have h_distinct : (groups.map (·.1)).Nodup := by
    rw [names_of_filled h_groups]
    exact h_names.sublist (List.filter_sublist.map _)
  refine ⟨_, h_fields, ?_⟩
  rwa [Fields.grouped_ofGroups h_distinct (ne_nil_of_filled h_groups)]

/-- A struct's fields are read from the object that they leave behind. -/
theorem exists_struct (h_names : (fields.map (·.name)).Nodup)
    (h : ∀ field ∈ fields, Kept field.shape field.value) :
    ∃ f, Data.namedFields (Shape.fieldData (declared fields) (held fields)) = .ok f ∧
      ∃ found, (f.grouped.mapM fun (name, values) =>
          Shape.readField name (.all values) (declared fields)) = .ok found ∧
        ∀ defaulted, Shape.arrange defaulted found.reduceOption (declared fields) =
          .ok (held fields) := by
  obtain ⟨f, h_fields, h_filled⟩ := exists_grouped h_names h
  rw [← fieldData_eq] at h_fields
  refine ⟨f, h_fields, (held (present fields)).map some, mapM_eq_ok ?_, ?_⟩
  · rw [held, List.map_map, List.forall₂_map_left_iff]
    have h_present : ∀ field ∈ present fields, field ∈ fields :=
      fun field h_mem => (List.mem_filter.mp h_mem).1
    refine ((List.forall₂_and_left _ _).mpr ⟨h_present, h_filled⟩).imp ?_
    rintro field ⟨name, values⟩ ⟨h_mem, h_group⟩
    obtain rfl : name = field.name := h_group.name_eq
    have h_lookup : (declared fields).lookup field.name = some field.shape :=
      lookup_of_mem TypedField.shape h_names h_mem
    have h_read := Shape.readField_of_lookup h_lookup (.all values)
    rw [h_group.read_eq] at h_read
    exact h_read
  · intro defaulted
    have h_found : ((held (present fields)).map some).reduceOption = held (present fields) := by
      show ((held (present fields)).map some).filterMap id = _
      simp
    rw [h_found]
    exact arrange_present h_names (fun field h_mem => (h field h_mem).isOption) defaulted

end TypedField
end PropertyText
