/-
  PropertyText.Proofs.Shape.Occurrences

  A struct is read field by field.  Which groups the document has, and in which order, shows
  only in the error: the fields are read if each of them is, from all the values of its name
  and from nothing else (`Shape.structFields_eq_ok_iff`).
-/
import Mathlib.Data.List.ReduceOption
import PropertyText.Proofs.Fields.Grouped
import PropertyText.Proofs.Shape.Struct

namespace PropertyText

/-- How a field of a struct comes to its value: from the values of its name, or without any
if it may be missing. -/
inductive FieldRead (f : Fields) (defaulted : List String) :
    String × Shape → String × Typed → Prop where
  | found {name : String} {shape : Shape} {x : Typed} (h_values : f.getAll name ≠ [])
      (h_read : shape.read (.all (f.getAll name)) = .ok x) :
      FieldRead f defaulted (name, shape) (name, x)
  | absent {name : String} {shape : Shape} (h_values : f.getAll name = [])
      (h_option : shape.isOption = true) : FieldRead f defaulted (name, shape) (name, .absent)
  | defaulted {name : String} {shape : Shape} (h_values : f.getAll name = [])
      (h_option : shape.isOption = false) (h_default : name ∈ defaulted) :
      FieldRead f defaulted (name, shape) (name, .defaulted)

theorem FieldRead.name_eq {f : Fields} {defaulted : List String} {field : String × Shape}
    {entry : String × Typed} (h : FieldRead f defaulted field entry) : entry.1 = field.1 := by
  cases h <;> rfl

namespace Shape

/-- The fields of a struct, read from an object. -/
def structFields (fields : List (String × Shape)) (defaulted : List String) (f : Fields) :
    Except ConversionError (List (String × Typed)) := do
  let found ← f.grouped.mapM fun (name, values) => readField name (.all values) fields
  arrange defaulted found.reduceOption fields

theorem read_struct (name : String) (fields : List (String × Shape)) (defaulted : List String)
    (offer : Offer) :
    (Shape.struct name fields defaulted).read offer =
      do return .struct (← structFields fields defaulted (← offer.last.asObject)) := by
  rw [read]
  cases offer.last with
  | text s => rfl
  | object f => simp only [Value.asObject, structFields, ok_bind, bind_assoc]

/-! ## The groups of a document -/

variable {fields : List (String × Shape)} {groups : List (String × List Value)}
  {found : List (Option (String × Typed))} {name : String} {result : Option (String × Typed)}
  {group : String × List Value}

theorem readField_of_lookup_none (h : fields.lookup name = none) (offer : Offer) :
    readField name offer fields = .ok none := by
  induction fields with
  | nil => rfl
  | cons field fields ih =>
    obtain ⟨other, shape⟩ := field
    rw [lookup_cons] at h
    by_cases h_name : name = other
    · rw [if_pos h_name] at h
      cases h
    · rw [if_neg h_name] at h
      rw [readField, if_neg (Ne.symm h_name), ih h]

/-- What a group is for a struct: the value of its field, or nothing if it has no field of
the name. -/
def GroupRead (fields : List (String × Shape)) (result : Option (String × Typed))
    (group : String × List Value) : Prop :=
  readField group.1 (.all group.2) fields = .ok result

namespace GroupRead

theorem eq_none (h : GroupRead fields result group) (h_none : fields.lookup group.1 = none) :
    result = none := by
  rw [GroupRead, readField_of_lookup_none h_none] at h
  exact (Except.ok.inj h).symm

theorem exists_eq_some {shape : Shape} (h : GroupRead fields result group)
    (h_shape : fields.lookup group.1 = some shape) :
    ∃ x, shape.read (.all group.2) = .ok x ∧ result = some (group.1, x) := by
  rw [GroupRead, readField_of_lookup h_shape, bind_eq_ok_iff] at h
  obtain ⟨x, h_read, h_result⟩ := h
  exact ⟨x, h_read, pure_eq_ok_iff.mp h_result⟩

/-- Under a name stands what its group is read as by the field of the name. -/
theorem lookup_found (h : List.Forall₂ (GroupRead fields) found groups) (name : String) :
    found.reduceOption.lookup name =
      (groups.lookup name).bind fun values =>
        (fields.lookup name).bind fun shape => (shape.read (.all values)).toOption := by
  induction h with
  | nil => rfl
  | @cons result group found groups h_group _ ih =>
    obtain ⟨other, values⟩ := group
    rw [lookup_cons]
    cases h_field : fields.lookup other with
    | none =>
      -- The struct has no field of this name, so the group leaves nothing behind.
      obtain rfl := h_group.eq_none h_field
      rw [List.reduceOption_cons_of_none, ih]
      by_cases h_name : name = other
      · subst h_name
        simp [h_field]
      · rw [if_neg h_name]
    | some shape =>
      obtain ⟨x, h_read, rfl⟩ := h_group.exists_eq_some h_field
      rw [List.reduceOption_cons_of_some, lookup_cons, ih]
      by_cases h_name : name = other
      · subst h_name
        rw [if_pos rfl, if_pos rfl, Option.bind_some, h_field, Option.bind_some, h_read]
        rfl
      · rw [if_neg h_name, if_neg h_name]

end GroupRead

/-! ## The fields of a struct -/

/-- The value of one field: what was found under its name, or what stands for nothing. -/
def fieldValue (defaulted : List String) (found : List (String × Typed)) (name : String)
    (shape : Shape) : Except ConversionError Typed :=
  match found.lookup name with
  | some x => .ok x
  | none =>
    if shape.isOption then .ok .absent
    else if name ∈ defaulted then .ok .defaulted
    else .error (.missingField name)

theorem arrange_cons (defaulted : List String) (found : List (String × Typed)) (name : String)
    (shape : Shape) (fields : List (String × Shape)) :
    arrange defaulted found ((name, shape) :: fields) = do
      let x ← fieldValue defaulted found name shape
      let rest ← arrange defaulted found fields
      return (name, x) :: rest := by
  rw [arrange, fieldValue]
  cases found.lookup name with
  | some x => rfl
  | none =>
    by_cases h_option : shape.isOption = true
    · simp [h_option]
    · by_cases h_default : name ∈ defaulted
      · simp [h_option, h_default]
      · simp [h_option, h_default]
        rfl

variable {f : Fields} {defaulted : List String} {values : List (String × Typed)}

/-- A field has been looked for: it is not in the document, or it has been read. -/
def Sought (f : Fields) (found : List (String × Typed)) (field : String × Shape) : Prop :=
  f.getAll field.1 = [] ∧ found.lookup field.1 = none ∨
    f.getAll field.1 ≠ [] ∧
      ∃ x, field.2.read (.all (f.getAll field.1)) = .ok x ∧ found.lookup field.1 = some x

theorem fieldValue_eq_ok_iff {found : List (String × Typed)} {shape : Shape} {x : Typed}
    (h : Sought f found (name, shape)) :
    fieldValue defaulted found name shape = .ok x ↔
      FieldRead f defaulted (name, shape) (name, x) := by
  rcases h with ⟨h_values, h_found⟩ | ⟨h_values, y, h_read, h_found⟩
  · rw [fieldValue, h_found]
    constructor
    · intro h_x
      by_cases h_option : shape.isOption = true
      · simp only [h_option, if_true, Except.ok.injEq] at h_x
        exact h_x ▸ .absent h_values h_option
      · by_cases h_default : name ∈ defaulted
        · simp only [h_option, h_default, Bool.false_eq_true, if_false, if_true,
            Except.ok.injEq] at h_x
          exact h_x ▸ .defaulted h_values (by simpa using h_option) h_default
        · simp [h_option, h_default] at h_x
    · intro h_x
      cases h_x with
      | found h_some => exact absurd h_values h_some
      | absent _ h_option => simp [h_option]
      | defaulted _ h_option h_default => simp [h_option, h_default]
  · rw [fieldValue, h_found]
    constructor
    · intro h_x
      exact Except.ok.inj h_x ▸ .found h_values h_read
    · intro h_x
      cases h_x with
      | found _ h_x => exact h_read.symm.trans h_x
      | absent h_none => exact absurd h_none h_values
      | defaulted h_none => exact absurd h_none h_values

/-- Once all the fields have been looked for, they are arranged as they are read. -/
theorem arrange_eq_ok_iff {found : List (String × Typed)}
    (h : ∀ field ∈ fields, Sought f found field) :
    arrange defaulted found fields = .ok values ↔
      List.Forall₂ (FieldRead f defaulted) fields values := by
  induction fields generalizing values with
  | nil => simp [arrange, eq_comm]
  | cons field fields ih =>
    obtain ⟨name, shape⟩ := field
    have h_first := h (name, shape) List.mem_cons_self
    have h_rest (rest : List (String × Typed)) : arrange defaulted found fields = .ok rest ↔
        List.Forall₂ (FieldRead f defaulted) fields rest :=
      ih fun field h_mem => h field (List.mem_cons_of_mem _ h_mem)
    simp only [arrange_cons, bind_eq_ok_iff, pure_eq_ok_iff, fieldValue_eq_ok_iff h_first,
      h_rest, List.forall₂_cons_left_iff]
    constructor
    · rintro ⟨x, h_x, rest, h_fields, rfl⟩
      exact ⟨_, rest, h_x, h_fields, rfl⟩
    · rintro ⟨⟨_, x⟩, rest, h_x, h_fields, rfl⟩
      obtain rfl := h_x.name_eq
      exact ⟨x, h_x, rest, h_fields, rfl⟩

/-- Every field has been looked for when the groups have been gone through. -/
theorem sought_of_found {found : List (Option (String × Typed))}
    (h_names : (fields.map (·.1)).Nodup)
    (h_found : List.Forall₂ (GroupRead fields) found f.grouped) :
    ∀ field ∈ fields, Sought f found.reduceOption field := by
  rintro ⟨name, shape⟩ h_mem
  have h_field := (lookup_eq_some_iff_mem h_names).mpr h_mem
  have h_lookup := GroupRead.lookup_found h_found name
  rw [Fields.lookup_grouped] at h_lookup
  by_cases h_values : f.getAll name = []
  · rw [if_pos h_values] at h_lookup
    exact .inl ⟨h_values, h_lookup⟩
  · -- The group of the name has been read, since the groups have been gone through.
    have h_group : (name, f.getAll name) ∈ f.grouped := by
      rw [← lookup_eq_some_iff_mem f.nodup_grouped, Fields.lookup_grouped, if_neg h_values]
    obtain ⟨result, h_result⟩ := exists_of_forall₂ h_found.flip _ h_group
    obtain ⟨x, h_read, -⟩ := GroupRead.exists_eq_some h_result h_field
    rw [if_neg h_values, h_field, Option.bind_some, Option.bind_some, h_read] at h_lookup
    exact .inr ⟨h_values, x, h_read, h_lookup⟩

/-- If no two fields bear one name, the fields of a struct are read if each of them is read
from the values of its name. -/
theorem structFields_eq_ok_iff (h_names : (fields.map (·.1)).Nodup) :
    structFields fields defaulted f = .ok values ↔
      List.Forall₂ (FieldRead f defaulted) fields values := by
  rw [structFields, bind_eq_ok_iff]
  constructor
  · rintro ⟨found, h_found, h_values⟩
    rw [mapM_eq_ok_iff] at h_found
    exact (arrange_eq_ok_iff (sought_of_found h_names h_found)).mp h_values
  · intro h_values
    -- A group is read by the field of its name, and is nothing to the struct without one.
    have h_groups : ∀ group ∈ f.grouped, ∃ result, GroupRead fields result group := by
      rintro ⟨name, group⟩ h_group
      cases h_field : fields.lookup name with
      | none => exact ⟨none, readField_of_lookup_none h_field _⟩
      | some shape =>
        have h_mem := (lookup_eq_some_iff_mem h_names).mp h_field
        obtain ⟨entry, h_entry⟩ := exists_of_forall₂ h_values _ h_mem
        rw [← lookup_eq_some_iff_mem f.nodup_grouped, Fields.lookup_grouped] at h_group
        cases h_entry with
        | @found _ _ x h_some h_read =>
          rw [if_neg h_some] at h_group
          cases h_group
          exact ⟨some (name, x), by rw [GroupRead, readField_of_lookup h_field, h_read]; rfl⟩
        | absent h_none | defaulted h_none =>
          rw [if_pos h_none] at h_group
          cases h_group
    obtain ⟨found, h_found⟩ := exists_forall₂ h_groups
    have h_found := h_found.flip
    exact ⟨found, mapM_eq_ok h_found,
      (arrange_eq_ok_iff (sought_of_found h_names h_found)).mpr h_values⟩

end Shape
end PropertyText
