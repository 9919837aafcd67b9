/-
  PropertyText.Proofs.Shape.Subtree

  Trees that are taken as they are.  Handed over as data a tree keeps every property in its
  place, names that repeat and empty objects included; and a field of a struct that takes
  part of a tree has it unchanged, whatever the other fields are
  (`Shape.read_struct_insert`).  Main statement: `Fields.readAs_itself`.
-/
import PropertyText.Proofs.Shape.Relevance

namespace PropertyText

theorem forall₂_append_left_iff {α β : Type} {r : α → β → Prop} {as bs : List α} {cs : List β} :
    List.Forall₂ r (as ++ bs) cs ↔
      ∃ xs ys, List.Forall₂ r as xs ∧ List.Forall₂ r bs ys ∧ cs = xs ++ ys := by
  constructor
  · intro h
    induction as generalizing cs with
    | nil => exact ⟨[], cs, .nil, h, rfl⟩
    | cons a as ih =>
      cases h with
      | cons h_a h_rest =>
        obtain ⟨xs, ys, h_xs, h_ys, rfl⟩ := ih h_rest
        exact ⟨_ :: xs, ys, .cons h_a h_xs, h_ys, rfl⟩
  · rintro ⟨xs, ys, h_xs, h_ys, rfl⟩
    exact List.rel_append h_xs h_ys

/-! ## One field among others -/

theorem fieldRead_iff_of_ne_nil {f : Fields} {defaulted : List String} {name : String}
    {shape : Shape} {entry : String × Typed} (h : f.getAll name ≠ []) :
    FieldRead f defaulted (name, shape) entry ↔
      ∃ x, shape.read (.all (f.getAll name)) = .ok x ∧ entry = (name, x) := by
  constructor
  · intro h_entry
    cases h_entry with
    | found _ h_read => exact ⟨_, h_read, rfl⟩
    | absent h_none | defaulted h_none => exact absurd h_none h
  · rintro ⟨x, h_read, rfl⟩
    exact .found h h_read

namespace Shape

variable {before after : List (String × Shape)} {field : String} {shape : Shape}
  {offer : Offer} {f : Fields}

theorem read_struct_eq_ok_iff {fields : List (String × Shape)} {x : Typed}
    (h_names : (fields.map (·.1)).Nodup) (h_offer : offer.last = .object f) (name : String)
    (defaulted : List String) :
    (Shape.struct name fields defaulted).read offer = .ok x ↔
      ∃ values, List.Forall₂ (FieldRead f defaulted) fields values ∧ x = .struct values := by
  simp only [read_struct, h_offer, Value.asObject, ok_bind, bind_eq_ok_iff, pure_eq_ok_iff,
    structFields_eq_ok_iff h_names]

/-- A field that the document has is read from the values of its name, and the others are read
as if it were not there. -/
theorem read_struct_insert (h_names : ((before ++ (field, shape) :: after).map (·.1)).Nodup)
    (h_offer : offer.last = .object f) (h_values : f.getAll field ≠ []) (name : String)
    (defaulted : List String) (x : Typed) :
    (Shape.struct name (before ++ (field, shape) :: after) defaulted).read offer = .ok x ↔
      ∃ xs ys, ((Shape.struct name before defaulted).read offer = .ok (.struct xs) ∧
          (Shape.struct name after defaulted).read offer = .ok (.struct ys)) ∧
        ∃ y, shape.read (.all (f.getAll field)) = .ok y ∧
          x = .struct (xs ++ (field, y) :: ys) := by
  have h_parts := h_names
  rw [List.map_append, List.map_cons] at h_parts
  obtain ⟨h_before, h_rest, -⟩ := List.nodup_append.mp h_parts
  have h_after := (List.nodup_cons.mp h_rest).2
  simp only [read_struct_eq_ok_iff h_names h_offer, read_struct_eq_ok_iff h_before h_offer,
    read_struct_eq_ok_iff h_after h_offer, forall₂_append_left_iff, List.forall₂_cons_left_iff,
    fieldRead_iff_of_ne_nil h_values, Typed.struct.injEq]
  constructor
  · rintro ⟨_, ⟨xs, _, h_xs, ⟨_, ys, ⟨y, h_y, rfl⟩, h_ys, rfl⟩, rfl⟩, rfl⟩
    exact ⟨xs, ys, ⟨⟨xs, h_xs, rfl⟩, ys, h_ys, rfl⟩, y, h_y, rfl⟩
  · rintro ⟨xs, ys, ⟨⟨_, h_xs, rfl⟩, _, h_ys, rfl⟩, y, h_y, rfl⟩
    exact ⟨_, ⟨xs, _, h_xs, ⟨_, ys, ⟨y, h_y, rfl⟩, h_ys, rfl⟩, rfl⟩, rfl⟩

/-! ## Shapes that take a tree as it is -/

theorem read_tree (offer : Offer) : Shape.tree.read offer = .ok (.tree offer.last) := by
  rw [read, offer.toValue_data]
  rfl

/-- An object is taken with all its properties; a text has none. -/
theorem read_document_eq_ok_iff (offer : Offer) (x : Typed) :
    Shape.document.read offer = .ok x ↔ ∃ g, offer.last = .object g ∧ x = .document g := by
  rw [read, Data.importFields, offer.toValue_data, ok_bind]
  cases offer.last with
  | text s => simp [Value.toFields]
  | object g => simp [Value.toFields, eq_comm]

theorem read_seq_tree (values : List Value) :
    (Shape.seq .tree).read (.all values) = .ok (.list (values.map .tree)) := by
  have h_items : (values.mapM fun v => Shape.tree.read (.one v)) = .ok (values.map .tree) := by
    apply mapM_eq_ok
    rw [List.forall₂_map_left_iff, List.forall₂_same]
    exact fun v _ => read_tree (.one v)
  rw [read, Offer.sequence, ok_bind, h_items]
  rfl

end Shape

namespace Fields

/-- A tree that is taken apart, read as a document or read as a value is itself.  In a struct,
a field that takes a value has the last one of its name, one that takes a document has its
properties and cannot be read from a text, and one that takes a sequence of values has all of
them in order; each as it stands in the tree, with the other fields as they are by themselves. -/
theorem readAs_itself :
    (∀ f : Fields, f.toData.toFields = .ok f ∧ f.readAs .document = .ok (.document f) ∧
      f.readAs .tree = .ok (.tree (.object f))) ∧
    ∀ (name field : String) (before after : List (String × Shape)) (defaulted : List String)
      (offer : Offer) (f : Fields) (v : Value),
      (before.map (·.1) ++ field :: after.map (·.1)).Nodup → offer.last = .object f →
      f.get? field = some v →
      let others xs ys := (Shape.struct name before defaulted).read offer = .ok (.struct xs) ∧
        (Shape.struct name after defaulted).read offer = .ok (.struct ys)
      let readWith shape :=
        (Shape.struct name (before ++ (field, shape) :: after) defaulted).read offer
      (∀ x, readWith .tree = .ok x ↔
        ∃ xs ys, others xs ys ∧ x = .struct (xs ++ (field, .tree v) :: ys)) ∧
      (∀ x, readWith .document = .ok x ↔
        ∃ xs ys, others xs ys ∧
          ∃ g, v = .object g ∧ x = .struct (xs ++ (field, .document g) :: ys)) ∧
      ∀ x, readWith (.seq .tree) = .ok x ↔
        ∃ xs ys, others xs ys ∧
          x = .struct (xs ++ (field, .list ((f.getAll field).map .tree)) :: ys) := by
  refine ⟨fun f => ⟨?_, ?_, ?_⟩, ?_⟩
  · simp [Data.toFields, toData, Data.node, entryFields_toEntries]
  · exact (Shape.read_document_eq_ok_iff _ _).mpr ⟨f, rfl, rfl⟩
  · exact Shape.read_tree (.one (.object f))
  · intro name field before after defaulted offer f v h_names h_offer h_v others readWith
    rw [get?_eq_getLast?] at h_v
    have h_values : f.getAll field ≠ [] := by
      intro h_none
      rw [h_none] at h_v
      cases h_v
    have h_last : (Offer.all (f.getAll field)).last = v := by
      rw [Offer.last, h_v, Option.getD_some]
    have h_insert (shape : Shape) (x : Typed) : readWith shape = .ok x ↔ _ :=
      Shape.read_struct_insert (by simpa using h_names) h_offer h_values name defaulted x
    refine ⟨fun x => ?_, fun x => ?_, fun x => ?_⟩
    · simp only [h_insert, Shape.read_tree, h_last, Except.ok.injEq, exists_eq_left']
      rfl
    · simp only [h_insert, Shape.read_document_eq_ok_iff, h_last]
      refine exists₂_congr fun xs ys => and_congr_right fun _ => ?_
      constructor
      · rintro ⟨_, ⟨g, h_g, rfl⟩, rfl⟩
        exact ⟨g, h_g, rfl⟩
      · rintro ⟨g, h_g, rfl⟩
        exact ⟨_, ⟨g, h_g, rfl⟩, rfl⟩
    · simp only [h_insert, Shape.read_seq_tree, Except.ok.injEq, exists_eq_left']
      rfl

/-- A struct with an empty object, and a field of which the last occurrence is an object, or a
text. -/
theorem readAs_itself_repeated :
    let inner : Fields := [("y", .text "2"), ("y", .object [])]
    let f : Fields := [("x", .text "1"), ("o", .object []), ("x", .object inner)]
    let readX shape g := (Shape.struct "S" [("o", .document), ("x", shape)] []).read
      (.one (.object g))
    readX .tree f = .ok (.struct [("o", .document []), ("x", .tree (.object inner))]) ∧
      readX .document f = .ok (.struct [("o", .document []), ("x", .document inner)]) ∧
      readX (.seq .tree) f = .ok (.struct [("o", .document []),
        ("x", .list [.tree (.text "1"), .tree (.object inner)])]) ∧
      ∀ x, readX .document (f ++ [("x", .text "3")]) ≠ .ok x := by
  intro inner f readX
  have h_read (g : Fields) (v : Value) (h_v : g.get? "x" = some v) :=
    readAs_itself.2 "S" "x" [("o", .document)] [] [] (.one (.object g)) g v (by decide) rfl h_v
  have h_others : (Shape.struct "S" [("o", .document)] []).read (.one (.object f)) =
        .ok (.struct [("o", .document [])]) ∧
      (Shape.struct "S" [] []).read (.one (.object f)) = .ok (.struct []) := ⟨rfl, rfl⟩
  obtain ⟨h_tree, h_document, h_seq⟩ := h_read f (.object inner) rfl
  refine ⟨(h_tree _).mpr ⟨_, _, h_others, rfl⟩, (h_document _).mpr ⟨_, _, h_others, _, rfl, rfl⟩,
    (h_seq _).mpr ⟨_, _, h_others, rfl⟩, ?_⟩
  intro x h_x
  obtain ⟨-, -, -, g, h_g, -⟩ := ((h_read _ (.text "3") rfl).2.1 x).mp h_x
  cases h_g

end Fields
end PropertyText
