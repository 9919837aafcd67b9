/-
  PropertyText.Proofs.Fields.Grouped

  Properties that come name by name are grouped as they came (`Fields.grouped_ofGroups`),
  and properties that come in any order have one group for each name, with all its values
  (`Fields.lookup_grouped`).
-/
import Mathlib.Data.List.Induction
import Mathlib.Data.List.Nodup
import PropertyText.Fields.Lookup

namespace PropertyText

/-! ## Tables of names -/

theorem lookup_cons {α : Type} (name other : String) (a : α) (table : List (String × α)) :
    ((other, a) :: table).lookup name = if name = other then some a else table.lookup name := by
  rw [List.lookup_cons]
  by_cases h_name : name = other
  · rw [if_pos h_name, h_name, beq_self_eq_true]
  · rw [if_neg h_name, beq_false_of_ne h_name]

theorem lookup_map {α β : Type} (f : α → β) (table : List (String × α)) (name : String) :
    (table.map fun (name, a) => (name, f a)).lookup name = (table.lookup name).map f := by
  induction table with
  | nil => rfl
  | cons entry table ih =>
    obtain ⟨other, a⟩ := entry
    rw [List.map_cons, lookup_cons, lookup_cons, ih, apply_ite (Option.map f), Option.map_some]

/-- In a table of distinct names, what stands there under a name is what is found. -/
theorem lookup_eq_some_iff_mem {α : Type} {table : List (String × α)} {name : String} {a : α}
    (h_names : (table.map (·.1)).Nodup) :
    table.lookup name = some a ↔ (name, a) ∈ table := by
  induction table with
  | nil => simp
  | cons entry table ih =>
    obtain ⟨other, b⟩ := entry
    rw [List.map_cons, List.nodup_cons] at h_names
    rw [lookup_cons, List.mem_cons, ← ih h_names.2]
    by_cases h_name : name = other
    · subst h_name
      have h_rest : table.lookup name ≠ some a := by
        intro h_mem
        exact h_names.1 (List.mem_map.mpr ⟨_, (ih h_names.2).mp h_mem, rfl⟩)
      rw [if_pos rfl]
      simp [h_rest, eq_comm]
    · rw [if_neg h_name]
      simp [h_name]

namespace Fields

variable {groups : List (String × List Value)} {name : String}

/-! ## Names that come one after the other -/

/-- The properties of several names, each with its values, one name after the other. -/
def ofGroups (groups : List (String × List Value)) : Fields :=
  groups.flatMap fun (name, values) => values.map (name, ·)

/-- The groups when one more property is seen. -/
def addProperty (groups : List (String × List Value)) (property : String × Value) :
    List (String × List Value) :=
  addToGroups property.1 property.2 groups

theorem grouped_eq_foldl (f : Fields) :
    f.grouped = (f.foldl addProperty []).map fun (name, values) => (name, values.reverse) := rfl

theorem addToGroups_new (value : Value) (h : name ∉ groups.map (·.1)) :
    addToGroups name value groups = groups ++ [(name, [value])] := by
  induction groups with
  | nil => rfl
  | cons group groups ih =>
    rw [List.map_cons, List.mem_cons, not_or] at h
    rw [addToGroups, if_neg (Ne.symm h.1), ih h.2, List.cons_append]

theorem addToGroups_last (value : Value) (values : List Value) (h : name ∉ groups.map (·.1)) :
    addToGroups name value (groups ++ [(name, values)]) = groups ++ [(name, value :: values)] := by
  induction groups with
  | nil => simp [addToGroups]
  | cons group groups ih =>
    rw [List.map_cons, List.mem_cons, not_or] at h
    rw [List.cons_append, addToGroups, if_neg (Ne.symm h.1), ih h.2, List.cons_append]

/-- Further values of the last name join its group. -/
theorem foldl_addProperty_last (values more : List Value) (h : name ∉ groups.map (·.1)) :
    (more.map (name, ·)).foldl addProperty (groups ++ [(name, values)]) =
      groups ++ [(name, more.reverse ++ values)] := by
  induction more generalizing values with
  | nil => rfl
  | cons value more ih =>
    rw [List.map_cons, List.foldl_cons, addProperty, addToGroups_last value values h, ih,
      List.reverse_cons, List.append_assoc, List.singleton_append]

/-- The values of a new name are a group of their own. -/
theorem foldl_addProperty_new {values : List Value} (h_values : values ≠ [])
    (h : name ∉ groups.map (·.1)) :
    (values.map (name, ·)).foldl addProperty groups = groups ++ [(name, values.reverse)] := by
  cases values with
  | nil => exact absurd rfl h_values
  | cons value more =>
    rw [List.map_cons, List.foldl_cons, addProperty, addToGroups_new value h,
      foldl_addProperty_last [value] more h, List.reverse_cons]

theorem foldl_addProperty_ofGroups (done : List (String × List Value))
    (h_names : (done.map (·.1) ++ groups.map (·.1)).Nodup) (h_values : ∀ g ∈ groups, g.2 ≠ []) :
    (ofGroups groups).foldl addProperty done =
      done ++ groups.map fun (name, values) => (name, values.reverse) := by
  induction groups generalizing done with
  | nil => simp [ofGroups]
  | cons group groups ih =>
    obtain ⟨name, values⟩ := group
    have h_new : name ∉ done.map (·.1) := by
      intro h_mem
      exact (List.nodup_append.mp h_names).2.2 name h_mem name (by simp) rfl
    have h_group := foldl_addProperty_new (h_values (name, values) List.mem_cons_self) h_new
    have h_rest := ih (done ++ [(name, values.reverse)]) (by simpa using h_names)
      (fun g h_mem => h_values g (List.mem_cons_of_mem _ h_mem))
    rw [ofGroups, List.flatMap_cons, List.foldl_append, h_group, ← ofGroups, h_rest]
    simp

/-- The groups of distinct names, none of them empty, are the names with their values. -/
theorem grouped_ofGroups (h_names : (groups.map (·.1)).Nodup)
    (h_values : ∀ g ∈ groups, g.2 ≠ []) : (ofGroups groups).grouped = groups := by
  rw [grouped_eq_foldl, foldl_addProperty_ofGroups [] (by simpa using h_names) h_values]
  simp [Function.comp_def]

/-! ## The group of a name -/

/-- The last of all the values of a name is the one that counts. -/
theorem get?_eq_getLast? (f : Fields) (name : String) :
    f.get? name = (f.getAll name).getLast? := by
  rw [get?, getAll, List.getLast?_map, List.getLast?_eq_head?_reverse, ← List.filter_reverse,
    List.head?_filter]

theorem names_addToGroups (name : String) (value : Value) (groups : List (String × List Value)) :
    (addToGroups name value groups).map (·.1) =
      if name ∈ groups.map (·.1) then groups.map (·.1) else groups.map (·.1) ++ [name] := by
  induction groups with
  | nil => rfl
  | cons group groups ih =>
    rw [addToGroups]
    by_cases h_name : group.1 = name
    · rw [if_pos h_name]
      simp [h_name]
    · rw [if_neg h_name, List.map_cons, ih, List.map_cons]
      by_cases h_mem : name ∈ groups.map (·.1)
      · rw [if_pos h_mem, if_pos (List.mem_cons_of_mem _ h_mem)]
      · have h_new : name ∉ group.1 :: groups.map (·.1) := by
          rw [List.mem_cons, not_or]
          exact ⟨Ne.symm h_name, h_mem⟩
        rw [if_neg h_mem, if_neg h_new, List.cons_append]

theorem lookup_addToGroups (name other : String) (value : Value)
    (groups : List (String × List Value)) :
    (addToGroups other value groups).lookup name =
      if name = other then some (value :: (groups.lookup name).getD [])
      else groups.lookup name := by
  induction groups with
  | nil => exact lookup_cons name other [value] []
  | cons group groups ih =>
    obtain ⟨first, values⟩ := group
    rw [addToGroups, lookup_cons]
    by_cases h_first : first = other
    · subst h_first
      rw [if_pos rfl, lookup_cons]
      by_cases h_name : name = first
      · rw [if_pos h_name, if_pos h_name, if_pos h_name, Option.getD_some]
      · rw [if_neg h_name, if_neg h_name, if_neg h_name]
    · rw [if_neg h_first, lookup_cons, ih]
      by_cases h_name : name = first
      · -- The group in front is that of the name, so the other name is not.
        have h_other : name ≠ other := h_name ▸ h_first
        rw [if_pos h_name, if_neg h_other, if_pos h_name]
      · rw [if_neg h_name, if_neg h_name]

theorem getAll_append_singleton (f : Fields) (other name : String) (value : Value) :
    Fields.getAll (f ++ [(other, value)]) name =
      f.getAll name ++ if name = other then [value] else [] := by
  by_cases h_name : name = other
  · simp [getAll, h_name]
  · simp [getAll, h_name, Ne.symm h_name]

/-- The group of a name that is being put together has the last value in front. -/
theorem lookup_foldl_addProperty (f : Fields) (name : String) :
    (f.foldl addProperty []).lookup name =
      if f.getAll name = [] then none else some (f.getAll name).reverse := by
  induction f using List.reverseRecOn with
  | nil => rfl
  | append_singleton f property ih =>
    obtain ⟨other, value⟩ := property
    rw [List.foldl_append, List.foldl_cons, List.foldl_nil, addProperty, lookup_addToGroups, ih,
      getAll_append_singleton]
    by_cases h_name : name = other
    · rw [if_pos h_name, if_pos h_name, if_neg (List.concat_ne_nil _ _)]
      by_cases h_none : getAll f name = [] <;> simp [h_none]
    · rw [if_neg h_name, if_neg h_name, List.append_nil]

theorem nodup_foldl_addProperty (f : Fields) : ((f.foldl addProperty []).map (·.1)).Nodup := by
  induction f using List.reverseRecOn with
  | nil => exact List.nodup_nil
  | append_singleton f property ih =>
    rw [List.foldl_append, List.foldl_cons, List.foldl_nil, addProperty, names_addToGroups]
    by_cases h_mem : property.1 ∈ (f.foldl addProperty []).map (·.1)
    · rwa [if_pos h_mem]
    · rw [if_neg h_mem]
      rw [← List.concat_eq_append]
      exact ih.concat h_mem

/-- Each name has one group. -/
theorem nodup_grouped (f : Fields) : (f.grouped.map (·.1)).Nodup := by
  rw [grouped_eq_foldl, List.map_map]
  exact nodup_foldl_addProperty f

/-- The group of a name holds all the values of the name, and a name without values has no
group. -/
theorem lookup_grouped (f : Fields) (name : String) :
    f.grouped.lookup name = if f.getAll name = [] then none else some (f.getAll name) := by
  have h_reverse := lookup_map List.reverse (f.foldl addProperty []) name
  rw [lookup_foldl_addProperty] at h_reverse
  rw [grouped_eq_foldl, h_reverse]
  by_cases h_none : f.getAll name = []
  · rw [if_pos h_none, if_pos h_none, Option.map_none]
  · rw [if_neg h_none, if_neg h_none, Option.map_some, List.reverse_reverse]

end Fields
end PropertyText
