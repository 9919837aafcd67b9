/-
  PropertyText.Proofs.Shape.Relevance

  What a struct is read from.  For a field that takes a sequence all the values of its name
  count, for any other the last one, and nothing else in the document does: other names, the
  order of names, and what stood under a name before (`Fields.readAs_struct_relevance`).
  Structs inside one another are read from the relevant parts of relevant parts (`Alike`).
-/
import PropertyText.Proofs.Data.Tree
import PropertyText.Proofs.Shape.Occurrences

namespace PropertyText

/-! ## Shapes that are read from the last value -/

/-- The shapes for which the last of all the values counts.  The others are the sequences,
and the shapes that take what they are offered as it is. -/
def Shape.readsLast : Shape → Bool
  | .seq _ | .tuple _ | .tupleStruct _ _ | .seqSizes => false
  | .any | .anySizes | .anyValueFirst => false
  | .option shape | .newtype _ shape => shape.readsLast
  | _ => true

theorem Value.lastValue_toData (values : List Value) (last : Value) :
    Data.lastValue (some last) (values.map Value.toData) = .ok (values.getLastD last) := by
  induction values generalizing last with
  | nil => rfl
  | cons v values ih =>
    rw [List.map_cons, Data.lastValue, Value.toValue_toData, ok_bind, ih,
      List.getLastD_cons]

/-- As a tree, several values are the last of them. -/
theorem Offer.toValue_data (offer : Offer) : offer.data.toValue = .ok offer.last := by
  cases offer with
  | one v => exact v.toValue_toData
  | all values =>
    match values with
    | [] => exact Value.toValue_toData _
    | [v] => exact v.toValue_toData
    | first :: second :: rest =>
      rw [Offer.data, Data.toValue, List.map_cons, Data.lastValue, Value.toValue_toData, ok_bind,
        Value.lastValue_toData]
      rfl

namespace Shape

theorem read_of_last {o p : Offer} (h_last : o.last = p.last) :
    (shape : Shape) → shape.readsLast = true → shape.read o = shape.read p
  | .option shape, h => by
    rw [read, read, read_of_last h_last shape h]
  | .newtype _ shape, h => by
    rw [read, read, read_of_last h_last shape h]
  | .tree, _ => by
    rw [read, read, Offer.toValue_data, Offer.toValue_data, h_last]
  | .document, _ => by
    rw [read, read, Data.importFields, Data.importFields, Offer.toValue_data,
      Offer.toValue_data, h_last]
  | .unit, _ | .unitStruct _, _ | .ignored, _ => by
    rw [read, read]
  | .scalar _, _ | .bytes, _ | .map _ _, _ | .struct _ _ _, _ | .enum _ _, _ | .mapSizes, _
  | .mapValueFirst, _ => by
    simp only [read, h_last]
  | .seq _, h | .tuple _, h | .tupleStruct _ _, h | .seqSizes, h | .any, h | .anySizes, h
  | .anyValueFirst, h => by cases h

end Shape

/-! ## Offers that a shape cannot tell apart -/

/-- The shape that a variant's payload is read by, if it is read by one. -/
def Payload.shape? (variant : String) : Payload → Option Shape
  | .newtype shape => some shape
  | .struct fields => some (.struct variant fields [])
  | _ => none

/-- Two offers agree in all that a shape looks at.  A struct looks at the values of its
fields' names, and at these through the shapes of the fields. -/
inductive Alike : Shape → Offer → Offer → Prop where
  | same {shape : Shape} {o : Offer} : Alike shape o o
  | last {shape : Shape} {o p : Offer} (h_shape : shape.readsLast = true)
      (h_last : o.last = p.last) : Alike shape o p
  | option {shape : Shape} {o p : Offer} (h : Alike shape o p) : Alike (.option shape) o p
  | newtype {name : String} {shape : Shape} {o p : Offer} (h : Alike shape o p) :
      Alike (.newtype name shape) o p
  | seq {item : Shape} {vs ws : List Value} (h_length : vs.length = ws.length)
      (h : ∀ pair ∈ vs.zip ws, Alike item (.one pair.1) (.one pair.2)) :
      Alike (.seq item) (.all vs) (.all ws)
  | tuple {items : List Shape} {vs ws : List Value} (h_length : vs.length = ws.length)
      (h : ∀ part ∈ items.zip (vs.zip ws), Alike part.1 (.one part.2.1) (.one part.2.2)) :
      Alike (.tuple items) (.all vs) (.all ws)
  | tupleStruct {name : String} {items : List Shape} {vs ws : List Value}
      (h_length : vs.length = ws.length)
      (h : ∀ part ∈ items.zip (vs.zip ws), Alike part.1 (.one part.2.1) (.one part.2.2)) :
      Alike (.tupleStruct name items) (.all vs) (.all ws)
  | map {key value : Shape} {o p : Offer} {f g : Fields} (h_left : o.last = .object f)
      (h_right : p.last = .object g) (h_names : f.grouped.map (·.1) = g.grouped.map (·.1))
      (h : ∀ pair ∈ f.grouped.zip g.grouped, Alike value (.all pair.1.2) (.all pair.2.2)) :
      Alike (.map key value) o p
  | struct {name : String} {fields : List (String × Shape)} {defaulted : List String}
      {o p : Offer} {f g : Fields} (h_left : o.last = .object f) (h_right : p.last = .object g)
      (h_names : (fields.map (·.1)).Nodup)
      (h_missing : ∀ field ∈ fields, f.getAll field.1 = [] ↔ g.getAll field.1 = [])
      (h : ∀ field ∈ fields, f.getAll field.1 ≠ [] →
        Alike field.2 (.all (f.getAll field.1)) (.all (g.getAll field.1))) :
      Alike (.struct name fields defaulted) o p
  | variant {name variant : String} {variants : List (String × Payload)} {payload : Payload}
      {shape : Shape} {o p : Offer} {f g : Fields} {vs ws : List Value}
      (h_left : o.last = .object f) (h_right : p.last = .object g)
      (h_first : Value.namedVariant f = .ok (variant, vs))
      (h_second : Value.namedVariant g = .ok (variant, ws))
      (h_variant : variants.lookup variant = some payload)
      (h_shape : payload.shape? variant = some shape) (h : Alike shape (.all vs) (.all ws)) :
      Alike (.enum name variants) o p

namespace Shape

theorem readItems_congr {items : List Shape} {vs ws : List Value} (wanted : String)
    (place : Nat) (h_length : vs.length = ws.length)
    (h : ∀ part ∈ items.zip (vs.zip ws),
      (part.1.read (.one part.2.1)).toOption = (part.1.read (.one part.2.2)).toOption) :
    (readItems wanted place items vs).toOption = (readItems wanted place items ws).toOption := by
  induction items generalizing place vs ws with
  | nil => rw [readItems, readItems]
  | cons shape items ih =>
    cases vs with
    | nil =>
      obtain rfl : ws = [] := List.length_eq_zero_iff.mp h_length.symm
      rfl
    | cons v vs =>
      cases ws with
      | nil => cases h_length
      | cons w ws =>
        rw [List.zip_cons_cons, List.zip_cons_cons, List.forall_mem_cons] at h
        simp only [readItems, toOption_bind, h.1, ih (place + 1) (Nat.succ.inj h_length) h.2]

/-- The entry of a map that a group is. -/
def readEntry (key value : Shape) (group : String × List Value) :
    Except ConversionError (Typed × Typed) := do
  let k ← readName key group.1
  let x ← read value (.all group.2)
  return (k, x)

theorem read_map (key value : Shape) (offer : Offer) :
    (Shape.map key value).read offer =
      do return .map (← (← offer.last.asObject).grouped.mapM (readEntry key value)) := by
  rw [read]
  rfl

/-- Groups of the same names, in the same order, are read alike if their values are. -/
theorem readEntries_congr (key : Shape) {value : Shape}
    {groups others : List (String × List Value)} (h_names : groups.map (·.1) = others.map (·.1))
    (h : ∀ pair ∈ groups.zip others,
      (value.read (.all pair.1.2)).toOption = (value.read (.all pair.2.2)).toOption) :
    (groups.mapM (readEntry key value)).toOption =
      (others.mapM (readEntry key value)).toOption := by
  have h_keys : List.Forall₂ (fun group other => group.1 = other.1) groups others := by
    have h_same := List.forall₂_same.mpr fun name (_ : name ∈ groups.map (·.1)) => Eq.refl name
    nth_rewrite 2 [h_names] at h_same
    rwa [List.forall₂_map_left_iff, List.forall₂_map_right_iff] at h_same
  rw [toOption_mapM, toOption_mapM]
  apply mapM_congr_zip h_keys.length_eq
  intro pair h_pair
  have h_name : pair.1.1 = pair.2.1 := List.forall₂_zip h_keys h_pair
  simp only [readEntry, toOption_bind, h_name, h pair h_pair]

/-- A struct's fields are read alike from documents whose values of their names are. -/
theorem structFields_congr {fields : List (String × Shape)} {f g : Fields}
    (h_names : (fields.map (·.1)).Nodup)
    (h_missing : ∀ field ∈ fields, f.getAll field.1 = [] ↔ g.getAll field.1 = [])
    (h : ∀ field ∈ fields, f.getAll field.1 ≠ [] →
      (field.2.read (.all (f.getAll field.1))).toOption =
        (field.2.read (.all (g.getAll field.1))).toOption) (defaulted : List String) :
    (structFields fields defaulted f).toOption = (structFields fields defaulted g).toOption := by
  have h_field : ∀ field ∈ fields, ∀ entry,
      FieldRead f defaulted field entry ↔ FieldRead g defaulted field entry := by
    rintro ⟨name, shape⟩ h_mem ⟨_, x⟩
    -- A field that is missing in one document is missing in the other.
    have h_none := h_missing (name, shape) h_mem
    have h_read := fun h_values => toOption_eq_iff.mp (h (name, shape) h_mem h_values)
    constructor
    · rintro (⟨h_values, h_x⟩ | ⟨h_values, h_option⟩ | ⟨h_values, h_option, h_default⟩)
      · exact .found (mt h_none.mpr h_values) ((h_read h_values x).mp h_x)
      · exact .absent (h_none.mp h_values) h_option
      · exact .defaulted (h_none.mp h_values) h_option h_default
    · rintro (⟨h_values, h_x⟩ | ⟨h_values, h_option⟩ | ⟨h_values, h_option, h_default⟩)
      · have h_values := mt h_none.mp h_values
        exact .found h_values ((h_read h_values x).mpr h_x)
      · exact .absent (h_none.mpr h_values) h_option
      · exact .defaulted (h_none.mpr h_values) h_option h_default
  rw [toOption_eq_iff]
  intro values
  rw [structFields_eq_ok_iff h_names, structFields_eq_ok_iff h_names]
  exact forall₂_congr_left h_field

theorem readPayload_of_shape? {variant : String} {payload : Payload} {shape : Shape}
    (h : payload.shape? variant = some shape) (values : List Value) :
    readPayload variant values payload =
      do return .variant variant (← shape.read (.all values)) := by
  cases payload with
  | newtype inner =>
    cases h
    rw [readPayload]
  | struct fields =>
    cases h
    rw [readPayload, read_struct]
    cases (Offer.all values).last with
    | text s => rfl
    | object f => simp only [Value.asObject, structFields, ok_bind, bind_assoc, pure_bind]
  | unit | tuple items => cases h

end Shape

/-- Offers that a shape cannot tell apart are read alike. -/
theorem Alike.toOption_read {shape : Shape} {o p : Offer} (h : Alike shape o p) :
    (shape.read o).toOption = (shape.read p).toOption := by
  -- One case for each way of being alike; the parts below are read alike by induction.
  induction h with
  | same => rfl
  | last h_shape h_last => rw [Shape.read_of_last h_last _ h_shape]
  | option _ ih | newtype _ ih => simp only [Shape.read, toOption_bind, ih]
  | @seq item vs ws h_length _ ih =>
    have h_items : (vs.mapM fun v => (item.read (.one v)).toOption) =
        ws.mapM fun v => (item.read (.one v)).toOption := mapM_congr_zip h_length ih
    simp only [Shape.read, Offer.sequence, ok_bind, toOption_bind, toOption_mapM, h_items]
  | tuple h_length _ ih | tupleStruct h_length _ ih =>
    simp only [Shape.read, Offer.sequence, ok_bind, toOption_bind]
    rw [Shape.readItems_congr _ 0 h_length ih]
  | @map key _ _ _ _ _ h_left h_right h_names _ ih =>
    have h_entries := Shape.readEntries_congr key h_names ih
    simp only [Shape.read_map, h_left, h_right, Value.asObject, ok_bind, toOption_bind, h_entries]
  | struct h_left h_right h_names h_missing _ ih =>
    rw [Shape.read_struct, Shape.read_struct, h_left, h_right]
    simp only [Value.asObject, ok_bind, toOption_bind]
    rw [Shape.structFields_congr h_names h_missing ih]
  | variant h_left h_right h_first h_second h_variant h_shape _ ih =>
    simp only [Shape.read, h_left, h_right, h_first, h_second, ok_bind]
    rw [Shape.readVariant_of_lookup h_variant, Shape.readVariant_of_lookup h_variant,
      Shape.readPayload_of_shape? h_shape, Shape.readPayload_of_shape? h_shape]
    simp only [toOption_bind, ih]

/-! ## Documents that a struct cannot tell apart -/

namespace Fields

/-- Two documents agree in the values of a field's name, as far as the field is read from
them: in all of them, or in whether there is a last one and which. -/
def SameFor (f g : Fields) (field : String × Shape) : Prop :=
  if field.2.readsLast then f.get? field.1 = g.get? field.1
  else f.getAll field.1 = g.getAll field.1

theorem SameFor.getAll_eq_nil_iff {f g : Fields} {field : String × Shape}
    (h : f.SameFor g field) : f.getAll field.1 = [] ↔ g.getAll field.1 = [] := by
  rw [SameFor] at h
  split at h
  · rw [get?_eq_getLast?, get?_eq_getLast?] at h
    rw [← List.getLast?_eq_none_iff, h, List.getLast?_eq_none_iff]
  · rw [h]

theorem SameFor.alike {f g : Fields} {field : String × Shape} (h : f.SameFor g field) :
    Alike field.2 (.all (f.getAll field.1)) (.all (g.getAll field.1)) := by
  rw [SameFor] at h
  split at h
  · rename_i h_shape
    rw [get?_eq_getLast?, get?_eq_getLast?] at h
    exact .last h_shape (by rw [Offer.last, Offer.last, h])
  · rw [h]
    exact .same

variable {name : String} {fields : List (String × Shape)} {defaulted : List String}

/-- A struct whose fields have distinct names is read alike from documents that agree for
each of its fields.  So it is where they agree for a field only in what the field itself
looks at, with structs at any depth. -/
theorem readAs_struct_relevance (h_names : (fields.map (·.1)).Nodup) (f g : Fields) :
    ((∀ field ∈ fields, f.SameFor g field) → ∀ x,
      f.readAs (.struct name fields defaulted) = .ok x ↔
        g.readAs (.struct name fields defaulted) = .ok x) ∧
    (Alike (.struct name fields defaulted) (.one (.object f)) (.one (.object g)) → ∀ x,
      f.readAs (.struct name fields defaulted) = .ok x ↔
        g.readAs (.struct name fields defaulted) = .ok x) := by
  have h_alike : Alike (.struct name fields defaulted) (.one (.object f)) (.one (.object g)) →
      ∀ x, f.readAs (.struct name fields defaulted) = .ok x ↔
        g.readAs (.struct name fields defaulted) = .ok x := by
    intro h
    exact toOption_eq_iff.mp h.toOption_read
  refine ⟨?_, h_alike⟩
  intro h_same
  -- Agreement for each field is the coarsest way in which two documents are alike.
  apply h_alike
  apply Alike.struct rfl rfl h_names
  · intro field h_mem
    exact (h_same field h_mem).getAll_eq_nil_iff
  · intro field h_mem _
    exact (h_same field h_mem).alike

/-- The fields of a task: a number, a list of tags, and the task's owner. -/
def taskFields : List (String × Shape) :=
  [("id", .scalar (.int ⟨true, .w8⟩)), ("tags", .option (.seq (.scalar .text))),
    ("owner", .struct "Owner" [("name", .scalar .text)] [])]

/-- A task is read from a document with other names, the names in another order, values that
do not fit in front of those that count, and other names about its owner. -/
theorem readAs_task_relevance :
    let plain : Fields := [("id", .text "7"), ("tags", .text "a"), ("tags", .text "b"),
      ("owner", .object [("name", .text "x")])]
    let mixed : Fields := [("note", .object [("id", .text "9")]), ("id", .text "none"),
      ("tags", .text "a"), ("owner", .text "nobody"), ("owner", .object [("name", .text "x")]),
      ("id", .text "7"), ("tags", .text "b")]
    let deeper : Fields := [("tags", .text "a"), ("owner", .object [("name", .object []),
      ("age", .text "?"), ("name", .text "x")]), ("tags", .text "b"), ("id", .text "7")]
    let task : Typed := .struct [("id", .scalar (.int ⟨true, .w8⟩ ⟨7, by decide⟩)),
      ("tags", .some (.list [.scalar (.text "a"), .scalar (.text "b")])),
      ("owner", .struct [("name", .scalar (.text "x"))])]
    plain.readAs (.struct "Task" taskFields []) = .ok task ∧
      mixed.readAs (.struct "Task" taskFields []) = .ok task ∧
      deeper.readAs (.struct "Task" taskFields []) = .ok task := by
  intro plain mixed deeper task
  have h_names : (taskFields.map (·.1)).Nodup := by decide
  have h_plain : plain.readAs (.struct "Task" taskFields []) = .ok task := rfl
  have h_same : ∀ field ∈ taskFields, mixed.SameFor plain field := by
    simp only [taskFields, List.forall_mem_cons]
    exact ⟨rfl, rfl, rfl, by simp⟩
  have h_owner : Alike (.struct "Owner" [("name", .scalar .text)] [])
      (.all (deeper.getAll "owner")) (.all (plain.getAll "owner")) := by
    apply Alike.struct rfl rfl (by decide)
    · simp only [List.forall_mem_cons]
      exact ⟨by decide, by simp⟩
    · simp only [List.forall_mem_cons]
      exact ⟨fun _ => .last rfl rfl, by simp⟩
  have h_deeper : Alike (.struct "Task" taskFields []) (.one (.object deeper))
      (.one (.object plain)) := by
    apply Alike.struct rfl rfl h_names
    · simp only [taskFields, List.forall_mem_cons]
      exact ⟨by decide, by decide, by decide, by simp⟩
    · simp only [taskFields, List.forall_mem_cons]
      exact ⟨fun _ => .same, fun _ => .same, fun _ => h_owner, by simp⟩
  refine ⟨h_plain, ?_, ?_⟩
  · exact ((readAs_struct_relevance h_names mixed plain).1 h_same task).mpr h_plain
  · exact ((readAs_struct_relevance h_names deeper plain).2 h_deeper task).mpr h_plain

end Fields
end PropertyText
