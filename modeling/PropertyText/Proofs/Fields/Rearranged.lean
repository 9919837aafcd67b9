/-
  PropertyText.Proofs.Fields.Rearranged

  Properties can be looked up by name, tested for, listed by name and grouped, each by a
  traversal of its own.  All of these agree, and what they tell is everything about a list of
  properties except how different names are interleaved: two lists have the same groups just
  when one is a rearrangement of the other in which the properties of each name keep their
  order (`Fields.Rearranges`).  Main statement: `Fields.grouped_agrees`.
-/
import Mathlib.Algebra.GroupWithZero.Nat
import PropertyText.Proofs.Fields.Grouped

namespace PropertyText
namespace Fields

/-! ## All groups -/

theorem names_foldl_addProperty (f : Fields) :
    (f.foldl addProperty []).map (·.1) = f.names.eraseDups := by
  induction f using List.reverseRecOn with
  | nil => rfl
  | append_singleton f property ih =>
    have h_last : names (f ++ [property]) = names f ++ [property.1] := List.map_append
    rw [List.foldl_append, List.foldl_cons, List.foldl_nil, addProperty, names_addToGroups, ih,
      h_last, List.eraseDups_append]
    by_cases h_mem : property.1 ∈ names f
    · simp [h_mem, List.removeAll]
    · simp [h_mem, List.removeAll, List.eraseDups_cons]

/-- The groups come in the order in which their names first appear. -/
theorem names_grouped (f : Fields) : f.grouped.map (·.1) = f.names.eraseDups := by
  rw [grouped_eq_foldl, List.map_map, ← names_foldl_addProperty]
  rfl

theorem getAll_eq_nil_iff {f : Fields} {name : String} :
    f.getAll name = [] ↔ f.contains name = false := by
  simp [getAll, contains]

/-- What is found of a name is its group, and a name that does not stand there has none. -/
theorem lookup_grouped_eq (f : Fields) (name : String) :
    f.grouped.lookup name = if f.contains name then some (f.getAll name) else none := by
  rw [lookup_grouped]
  by_cases h_none : f.getAll name = []
  · simp [h_none, getAll_eq_nil_iff.mp h_none]
  · have h_contains : f.contains name = true := by simpa [getAll_eq_nil_iff] using h_none
    simp [h_none, h_contains]

/-- Each group holds all the values of its name, of which there is at least one. -/
theorem values_of_mem_grouped {f : Fields} {group : String × List Value} (h : group ∈ f.grouped) :
    group.2 = f.getAll group.1 ∧ group.2 ≠ [] := by
  have h_found := (lookup_eq_some_iff_mem (nodup_grouped f)).mpr h
  rw [lookup_grouped] at h_found
  split at h_found
  · cases h_found
  · rename_i h_some
    rw [← Option.some.inj h_found]
    exact ⟨rfl, h_some⟩

theorem grouped_eq_map (f : Fields) :
    f.grouped = f.names.eraseDups.map fun name => (name, f.getAll name) := by
  rw [← names_grouped, List.map_map]
  refine (List.map_id _).symm.trans (List.map_congr_left ?_)
  intro group h_mem
  exact Prod.ext rfl (values_of_mem_grouped h_mem).1

theorem sum_length_addToGroups (name : String) (value : Value)
    (groups : List (String × List Value)) :
    ((addToGroups name value groups).map (·.2.length)).sum =
      (groups.map (·.2.length)).sum + 1 := by
  fun_induction addToGroups name value groups with
  | case1 => rfl
  | case2 values rest =>
    simp only [List.map_cons, List.sum_cons, List.length_cons]
    omega
  | case3 other values rest h_name ih =>
    simp only [List.map_cons, List.sum_cons, ih]
    omega

theorem sum_length_foldl_addProperty (f : Fields) :
    ((f.foldl addProperty []).map (·.2.length)).sum = f.length := by
  induction f using List.reverseRecOn with
  | nil => rfl
  | append_singleton f property ih =>
    rw [List.foldl_append, List.foldl_cons, List.foldl_nil, addProperty, sum_length_addToGroups,
      ih, List.length_append, List.length_singleton]

/-- No property is left out of the groups, and none is in two of them. -/
theorem sum_length_grouped (f : Fields) : (f.grouped.map (·.2.length)).sum = f.length := by
  rw [grouped_eq_foldl, List.map_map, ← sum_length_foldl_addProperty]
  simp [Function.comp_def]

/-! ## Rearrangements -/

/-- The properties of `f` in another order, in which those of one name come one after the other
as they do in `f`: each property is told by the place at which it stands there. -/
def Rearranges (g f : Fields) : Prop :=
  ∃ placed : List ((String × Value) × Nat),
    placed.Perm f.zipIdx ∧ placed.map (·.1) = g ∧
      placed.Pairwise fun p q => p.1.1 = q.1.1 → p.2 < q.2

/-- Properties at ascending places. -/
abbrev Ascending (placed : List ((String × Value) × Nat)) : Prop :=
  placed.Pairwise fun p q => p.2 < q.2

theorem ascending_zipIdx (f : Fields) (start : Nat) : Ascending (f.zipIdx start) := by
  have h_places : ((f.zipIdx start).map (·.2)).Pairwise (· < ·) := by
    rw [List.zipIdx_map_snd]
    exact List.pairwise_lt_range' 1
  exact List.pairwise_map.mp h_places

/-- The values of a name, each with its place. -/
theorem getAll_map_fst (placed : List ((String × Value) × Nat)) (name : String) :
    getAll (placed.map (·.1)) name = (placed.filter (·.1.1 == name)).map (·.1.2) := by
  simp [getAll, List.filter_map, Function.comp_def]

/-- A rearrangement has the same values of each name in the same order. -/
theorem getAll_of_perm {placed others : List ((String × Value) × Nat)}
    (h_perm : placed.Perm others) (h_others : Ascending others)
    (h_stable : placed.Pairwise fun p q => p.1.1 = q.1.1 → p.2 < q.2) (name : String) :
    getAll (placed.map (·.1)) name = getAll (others.map (·.1)) name := by
  have h_name : ∀ p ∈ placed.filter (·.1.1 == name), p.1.1 = name := by simp
  -- Among the properties of one name the places ascend on both sides.
  have h_ascending : Ascending (placed.filter (·.1.1 == name)) := by
    refine (h_stable.filter _).imp_of_mem ?_
    intro p q h_p h_q h_lt
    exact h_lt ((h_name p h_p).trans (h_name q h_q).symm)
  have h_same : placed.filter (·.1.1 == name) = others.filter (·.1.1 == name) := by
    refine List.Perm.eq_of_pairwise ?_ h_ascending (h_others.filter _) (h_perm.filter _)
    intro p q _ _ h_lt h_gt
    exact absurd h_lt (Nat.lt_asymm h_gt)
  rw [getAll_map_fst, getAll_map_fst, h_same]

/-- Where a name has a value, the first property of the name stands somewhere, behind properties
of other names only. -/
theorem exists_first_of_getAll {placed : List ((String × Value) × Nat)} {name : String}
    {value : Value} {values : List Value}
    (h : getAll (placed.map (·.1)) name = value :: values) :
    ∃ front place back, placed = front ++ ((name, value), place) :: back ∧
      ∀ p ∈ front, p.1.1 ≠ name := by
  rw [getAll_map_fst] at h
  obtain ⟨first, rest, h_filter, rfl, -⟩ := List.map_eq_cons_iff.mp h
  obtain ⟨front, back, rfl, h_front, h_first, -⟩ := List.filter_eq_cons_iff.mp h_filter
  obtain ⟨⟨other, value⟩, place⟩ := first
  obtain rfl : other = name := by simpa using h_first
  exact ⟨front, place, back, rfl, by simpa using h_front⟩

/-- Properties at ascending places can be brought in any order in which the values of each name
are the same. -/
theorem exists_perm_of_getAll {placed : List ((String × Value) × Nat)} {g : Fields}
    (h_placed : Ascending placed)
    (h : ∀ name, getAll (placed.map (·.1)) name = g.getAll name) :
    ∃ moved : List ((String × Value) × Nat), moved.Perm placed ∧ moved.map (·.1) = g ∧
      moved.Pairwise fun p q => p.1.1 = q.1.1 → p.2 < q.2 := by
  induction g generalizing placed with
  | nil =>
    cases placed with
    | nil => exact ⟨[], .refl _, rfl, .nil⟩
    | cons p placed => simpa [getAll] using h p.1.1
  | cons property g ih =>
    obtain ⟨name, value⟩ := property
    have h_first : getAll (placed.map (·.1)) name = value :: getAll g name := by
      simpa [getAll] using h name
    obtain ⟨front, place, back, rfl, h_front⟩ := exists_first_of_getAll h_first
    -- Without this property both sides agree again.
    have h_rest (other : String) :
        getAll ((front ++ back).map (·.1)) other = getAll g other := by
      have h_other := h other
      by_cases h_name : name = other
      · subst h_name
        have h_none : getAll (front.map (·.1)) name = [] := by
          simpa [getAll_map_fst] using h_front
        simp only [getAll, List.map_append, List.map_cons, List.filter_append] at h_none h_other ⊢
        simpa [h_none] using h_other
      · simpa [getAll, h_name] using h_other
    have h_sub : (front ++ back).Sublist (front ++ ((name, value), place) :: back) :=
      (List.Sublist.refl front).append (List.sublist_cons_self _ back)
    obtain ⟨moved, h_perm, rfl, h_stable⟩ := ih (h_placed.sublist h_sub) h_rest
    refine ⟨((name, value), place) :: moved, (h_perm.cons _).trans List.perm_middle.symm, rfl,
      List.pairwise_cons.mpr ⟨?_, h_stable⟩⟩
    intro q h_mem h_same
    -- A property of the same name does not stand in front of the first one.
    have h_back : q ∈ back :=
      (List.mem_append.mp (h_perm.mem_iff.mp h_mem)).resolve_left fun h_in =>
        h_front q h_in h_same.symm
    exact (List.pairwise_cons.mp (List.pairwise_append.mp h_placed).2.1).1 q h_back

theorem rearranges_iff {f g : Fields} :
    g.Rearranges f ↔ ∀ name, f.getAll name = g.getAll name := by
  have h_fst : (f.zipIdx).map (·.1) = f := List.zipIdx_map_fst 0 f
  constructor
  · rintro ⟨placed, h_perm, rfl, h_stable⟩ name
    rw [getAll_of_perm h_perm (ascending_zipIdx f 0) h_stable, h_fst]
  · intro h
    exact exists_perm_of_getAll (ascending_zipIdx f 0) (by simpa only [h_fst] using h)

/-- The groups of a list of properties are its names in the order in which they first appear,
each with all its values in their order, and at least one.  The last of them is the value of
the name, which is found just when the name stands there.  Every property is in one group.  Two
lists have the same groups, whatever the order of these, just when one is the other with its
properties rearranged, and those of each name in the same order. -/
theorem grouped_agrees (f : Fields) :
    (f.grouped.map (·.1) = f.names.eraseDups ∧
      f.grouped = f.names.eraseDups.map fun name => (name, f.getAll name)) ∧
    ([] ∉ f.grouped.map (·.2) ∧ ∀ name,
      f.grouped.lookup name = if f.contains name then some (f.getAll name) else none) ∧
    (∀ name, f.get? name = (f.getAll name).getLast? ∧
      (f.get? name).isSome = f.contains name) ∧
    (f.grouped.map (·.2.length)).sum = f.length ∧
    ∀ g : Fields,
      (∀ name, f.grouped.lookup name = g.grouped.lookup name) ↔ g.Rearranges f := by
  refine ⟨⟨names_grouped f, grouped_eq_map f⟩, ⟨?_, lookup_grouped_eq f⟩, ?_,
    sum_length_grouped f, ?_⟩
  · intro h_mem
    obtain ⟨group, h_group, h_nil⟩ := List.mem_map.mp h_mem
    exact (values_of_mem_grouped h_group).2 h_nil
  · intro name
    refine ⟨get?_eq_getLast? f name, ?_⟩
    rw [get?_eq_getLast?]
    cases h_contains : f.contains name with
    | false => simp [getAll_eq_nil_iff.mpr h_contains]
    | true =>
      rw [List.getLast?_isSome]
      simpa [getAll_eq_nil_iff] using h_contains
  · intro g
    rw [rearranges_iff]
    refine forall_congr' fun name => ?_
    rw [lookup_grouped, lookup_grouped]
    -- A name has no group just when it has no values.
    by_cases h_f : f.getAll name = []
    · by_cases h_g : g.getAll name = []
      · simp [h_f, h_g]
      · simp [h_f, h_g, Ne.symm h_g]
    · by_cases h_g : g.getAll name = []
      · simp [h_f, h_g]
      · simp [h_f, h_g]

end Fields
end PropertyText
