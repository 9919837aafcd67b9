/-
  PropertyText.Proofs.Data.Foreign

  Data of formats that describe themselves, taken over as a tree and flattened as any other
  value.  The two agree where no sequence stands in another one.  Where one does, flattening
  refuses it, and taking it over keeps nothing but its last element.  Main statement:
  `Foreign.toFields_of_importFields`.
-/
import PropertyText.Data.Import
import PropertyText.Proofs.Data.Flattened

namespace PropertyText

/-- Data as a format presents it that describes itself; integers have 64 bits. -/
inductive Foreign where
  | null
  | bool (value : Bool)
  | integer (signed : Bool) (value : IntType.Value ⟨signed, .w64⟩)
  | string (value : String)
  | seq (items : List Foreign)
  | map (entries : List (String × Foreign))

namespace Foreign

/-! ## As typed data -/

mutual

/-- The data as a typed value, in which null is the given one. -/
def data (null : Data) : Foreign → Data
  | .null => null
  | .bool value => .scalar (.bool value)
  | .integer signed value => .scalar (.int ⟨signed, .w64⟩ value)
  | .string value => .scalar (.text value)
  | .seq items => .seq (itemData null items)
  | .map entries => .map (entryData null entries)

def itemData (null : Data) : List Foreign → List Data
  | [] => []
  | item :: items => data null item :: itemData null items

def entryData (null : Data) : List (String × Foreign) → List (Data × Data)
  | [] => []
  | (name, value) :: entries => (.scalar (.text name), data null value) :: entryData null entries

end

/-! ## Sequences within sequences -/

def isSequence : Foreign → Bool
  | .seq _ => true
  | _ => false

mutual

/-- Whether an element of some sequence is a sequence, at any depth. -/
def isNested : Foreign → Bool
  | .seq items => anyNested items
  | .map entries => entriesNested entries
  | .null | .bool _ | .integer _ _ | .string _ => false

def anyNested : List Foreign → Bool
  | [] => false
  | item :: items => item.isSequence || item.isNested || anyNested items

def entriesNested : List (String × Foreign) → Bool
  | [] => false
  | (_, value) :: entries => value.isNested || entriesNested entries

end

mutual

/-- The data with every sequence that is an element of another cut to its last element. -/
def cut : Foreign → Foreign
  | .seq items => .seq (cutItems items)
  | .map entries => .map (cutEntries entries)
  | d => d

/-- What is left of an element. -/
def cutItem : Foreign → Foreign
  | .seq items => lastItem .null items
  | .map entries => .map (cutEntries entries)
  | d => d

def lastItem (last : Foreign) : List Foreign → Foreign
  | [] => last
  | item :: items => lastItem item.cutItem items

def cutItems : List Foreign → List Foreign
  | [] => []
  | item :: items => item.cutItem :: cutItems items

def cutEntries : List (String × Foreign) → List (String × Foreign)
  | [] => []
  | (name, value) :: entries => (name, value.cut) :: cutEntries entries

end

/-! ## What is left when sequences have been cut -/

mutual

theorem cut_eq_self : (d : Foreign) → d.isNested = false → d.cut = d
  | .seq items, h => by rw [cut, cutItems_eq_self items (by simpa [isNested] using h)]
  | .map entries, h => by rw [cut, cutEntries_eq_self entries (by simpa [isNested] using h)]
  | .null, _ | .bool _, _ | .integer _ _, _ | .string _, _ => by simp [cut]

theorem cutItem_eq_self : (d : Foreign) → d.isSequence = false → d.isNested = false →
    d.cutItem = d
  | .seq items, h, _ => by cases h
  | .map entries, _, h => by
    rw [cutItem, cutEntries_eq_self entries (by simpa [isNested] using h)]
  | .null, _, _ | .bool _, _, _ | .integer _ _, _, _ | .string _, _, _ => by simp [cutItem]

theorem cutItems_eq_self : (items : List Foreign) → anyNested items = false →
    cutItems items = items
  | [], _ => rfl
  | item :: items, h => by
    simp only [anyNested, Bool.or_eq_false_iff] at h
    rw [cutItems, cutItem_eq_self item h.1.1 h.1.2, cutItems_eq_self items h.2]

theorem cutEntries_eq_self : (entries : List (String × Foreign)) →
    entriesNested entries = false → cutEntries entries = entries
  | [], _ => rfl
  | (name, value) :: entries, h => by
    simp only [entriesNested, Bool.or_eq_false_iff] at h
    rw [cutEntries, cut_eq_self value h.1, cutEntries_eq_self entries h.2]

end

mutual

theorem isNested_cut : (d : Foreign) → d.cut.isNested = false
  | .seq items => by rw [cut, isNested, anyNested_cutItems items]
  | .map entries => by rw [cut, isNested, entriesNested_cutEntries entries]
  | .null | .bool _ | .integer _ _ | .string _ => by simp [cut, isNested]

theorem isNested_cutItem : (d : Foreign) →
    d.cutItem.isSequence = false ∧ d.cutItem.isNested = false
  | .seq items => by
    rw [cutItem]
    exact isNested_lastItem items .null ⟨rfl, by simp [isNested]⟩
  | .map entries => by
    rw [cutItem, isNested, entriesNested_cutEntries entries]
    exact ⟨rfl, rfl⟩
  | .null | .bool _ | .integer _ _ | .string _ => by simp [cutItem, isNested, isSequence]

theorem isNested_lastItem : (items : List Foreign) → (last : Foreign) →
    last.isSequence = false ∧ last.isNested = false →
    (lastItem last items).isSequence = false ∧ (lastItem last items).isNested = false
  | [], _, h => by rwa [lastItem]
  | item :: items, _, _ => by
    rw [lastItem]
    exact isNested_lastItem items _ (isNested_cutItem item)

theorem anyNested_cutItems : (items : List Foreign) → anyNested (cutItems items) = false
  | [] => by simp [cutItems, anyNested]
  | item :: items => by
    obtain ⟨h_sequence, h_nested⟩ := isNested_cutItem item
    rw [cutItems, anyNested, h_sequence, h_nested, anyNested_cutItems items]
    rfl

theorem entriesNested_cutEntries : (entries : List (String × Foreign)) →
    entriesNested (cutEntries entries) = false
  | [] => by simp [cutEntries, entriesNested]
  | (name, value) :: entries => by
    rw [cutEntries, entriesNested, isNested_cut value, entriesNested_cutEntries entries]
    rfl

end

/-! ## Flattening -/

theorem isSequence_data (d : Foreign) : (d.data .none).bare.isSequence = d.isSequence := by
  cases d <;> rw [data, Data.bare] <;> simp [Data.isSequence, isSequence]

mutual

/-- Every part is fit unless a sequence stands in another one. -/
theorem sound_data_iff : (d : Foreign) → ((d.data .none).Sound ↔ d.isNested = false)
  | .seq items => by
    rw [data, Data.sound_iff, isNested, ← sound_items_iff items]
    simp only [Data.Fit, Data.children, forall_and]
  | .map entries => by
    rw [data, Data.sound_iff, isNested, ← sound_entries_iff entries]
    simp only [Data.Fit, Data.children, List.forall_mem_append, List.forall_mem_map, forall_and]
    exact ⟨fun ⟨h_keys, _, h_values⟩ => ⟨h_keys, h_values⟩, fun ⟨h_keys, h_values⟩ =>
      ⟨h_keys, fun entry h_mem => Data.sound_of_isText (h_keys entry h_mem), h_values⟩⟩
  | .null | .bool _ | .integer _ _ | .string _ => by
    rw [data, Data.sound_iff, isNested]
    simp [Data.Fit, Data.children]

theorem sound_items_iff : (items : List Foreign) →
    ((∀ item ∈ itemData .none items, item.bare.isSequence = false ∧ item.Sound) ↔
      anyNested items = false)
  | [] => by simp [itemData, anyNested]
  | item :: items => by
    rw [itemData, anyNested, List.forall_mem_cons, sound_items_iff items, isSequence_data,
      sound_data_iff item]
    simp only [Bool.or_eq_false_iff]

theorem sound_entries_iff : (entries : List (String × Foreign)) →
    ((∀ entry ∈ entryData .none entries, entry.1.bare.isText = true ∧ entry.2.Sound) ↔
      entriesNested entries = false)
  | [] => by simp [entryData, entriesNested]
  | (name, value) :: entries => by
    rw [entryData, entriesNested, List.forall_mem_cons, sound_entries_iff entries,
      sound_data_iff value]
    simp [Data.bare, Data.isText]

end

mutual

/-- Nothing else is refused. -/
theorem node_error {e : ConversionError} : (d : Foreign) → (d.data .none).node = .error e →
    e = .nestedSequence
  | .seq items, h => by
    rw [data, Data.node, bind_eq_error_iff] at h
    obtain h | ⟨_, -, h⟩ := h
    · exact nodes_error items h
    · exact absurd h pure_ne_error
  | .map entries, h => by
    rw [data, Data.node, bind_eq_error_iff] at h
    obtain h | ⟨_, -, h⟩ := h
    · exact entryFields_error entries h
    · exact absurd h pure_ne_error
  | .null, h | .bool _, h | .integer _ _, h | .string _, h => by
    rw [data, Data.node] at h
    cases h

theorem nodes_error {e : ConversionError} : (items : List Foreign) →
    Data.nodes (itemData .none items) = .error e → e = .nestedSequence
  | [], h => by
    rw [itemData, Data.nodes] at h
    cases h
  | item :: items, h => by
    rw [itemData, Data.nodes, bind_eq_error_iff] at h
    obtain h | ⟨_, -, h⟩ := h
    · exact node_error item h
    obtain h | ⟨_, -, h⟩ := bind_eq_error_iff.mp h
    · exact nodes_error items h
    · exact absurd h pure_ne_error

theorem entryFields_error {e : ConversionError} : (entries : List (String × Foreign)) →
    Data.entryFields (entryData .none entries) = .error e → e = .nestedSequence
  | [], h => by
    rw [entryData, Data.entryFields] at h
    cases h
  | (name, value) :: entries, h => by
    rw [entryData, Data.entryFields_cons, Data.node_of_isText rfl, ok_bind, Node.key, ok_bind,
      bind_eq_error_iff, Data.leave, bind_eq_error_iff] at h
    obtain (h | ⟨n, -, h⟩) | ⟨_, -, h⟩ := h
    · exact node_error value h
    · exact Node.properties_error h
    obtain h | ⟨_, -, h⟩ := bind_eq_error_iff.mp h
    · exact entryFields_error entries h
    · exact absurd h pure_ne_error

end

/-- Named data in which no sequence stands in another one is flattened. -/
theorem toFields_data {entries : List (String × Foreign)} (h : entriesNested entries = false) :
    ((Foreign.map entries).data .none).toFields =
      .ok (Data.entryProperties (entryData .none entries)) := by
  have h_entries := (Data.entries_eq_ok_iff (entryData .none entries) _).mpr
    ⟨(sound_entries_iff entries).mpr h, rfl⟩
  rw [Data.toFields_eq_ok_iff_node, data, Data.node, h_entries]
  rfl

/-- Other named data is refused. -/
theorem toFields_nested {entries : List (String × Foreign)} (h : entriesNested entries = true) :
    ((Foreign.map entries).data .none).toFields = .error .nestedSequence := by
  rw [data, Data.toFields, Data.node]
  cases h_entries : Data.entryFields (entryData .none entries) with
  | error e =>
    rw [entryFields_error entries h_entries]
    rfl
  | ok f =>
    have h_sound := ((Data.entries_eq_ok_iff _ f).mp h_entries).1
    rw [sound_entries_iff, h] at h_sound
    cases h_sound

/-! ## Taking over -/

/-- Null is presented as nothing, or as a missing value. -/
def IsNull (null : Data) : Prop := null = .unit ∨ null = .none

variable {null : Data}

theorem found_null (h_null : IsNull null) : ∃ found,
    null.toValue = .error (.wrongType found Data.wanted) := by
  obtain rfl | rfl := h_null <;> exact ⟨_, rfl⟩

mutual

/-- A value taken over is what is left of it, flattened, where it is an element. -/
theorem under_of_toValue (h_null : IsNull null) : (d : Foreign) → {v : Value} →
    (d.data null).toValue = .ok v → (name : String) →
    (d.cutItem.data .none).under name = [(name, v)]
  | .null, v, h, _ => by
    obtain ⟨found, h_error⟩ := found_null h_null
    rw [data, h_error] at h
    cases h
  | .bool _, v, h, name | .integer _ _, v, h, name | .string _, v, h, name => by
    obtain rfl := Except.ok.inj h
    simp [cutItem, data, Data.under, Value.ofScalar]
  | .seq items, v, h, name => by
    rw [data, Data.toValue] at h
    rw [cutItem]
    exact under_of_lastValue h_null items .null (by simp) h name
  | .map entries, v, h, name => by
    rw [data, Data.toValue, bind_eq_ok_iff] at h
    obtain ⟨f, h_entries, h⟩ := h
    obtain rfl := Except.ok.inj h
    rw [cutItem, data, Data.under, properties_data h_null entries h_entries]

/-- Of several values the last one is left. -/
theorem under_of_lastValue (h_null : IsNull null) : (items : List Foreign) → (last : Foreign) →
    {value : Option Value} →
    (∀ v, value = some v → ∀ name, (last.data .none).under name = [(name, v)]) →
    {v : Value} → Data.lastValue value (itemData null items) = .ok v → (name : String) →
    ((lastItem last items).data .none).under name = [(name, v)]
  | [], last, none, h_last, v, h, name => by cases h
  | [], last, some value, h_last, v, h, name => by
    rw [lastItem]
    exact h_last v (congrArg some (Except.ok.inj h)) name
  | item :: items, last, value, h_last, v, h, name => by
    rw [itemData, Data.lastValue, bind_eq_ok_iff] at h
    obtain ⟨w, h_item, h⟩ := h
    rw [lastItem]
    refine under_of_lastValue h_null items item.cutItem ?_ h name
    rintro _ ⟨⟩ name
    exact under_of_toValue h_null item h_item name

/-- What an entry leaves is what is left of it, flattened. -/
theorem importEntry_data (h_null : IsNull null) : (d : Foreign) → {name : String} →
    {f : Fields} → (d.data null).importEntry name = .ok f → f = (d.cut.data .none).under name
  | .null, name, f, h => by
    have h_nothing : (null.importEntry name) = .ok [] := by obtain rfl | rfl := h_null <;> rfl
    obtain rfl := Except.ok.inj (h_nothing.symm.trans h)
    simp [cut, data, Data.under]
  | .bool _, name, f, h | .integer _ _, name, f, h | .string _, name, f, h => by
    obtain rfl := Except.ok.inj h
    simp [cut, data, Data.under, Value.ofScalar]
  | .seq items, name, f, h => by
    rw [data, Data.importEntry] at h
    rw [cut, data, Data.under, repeated_data h_null items h]
  | .map entries, name, f, h => by
    rw [data, Data.importEntry, bind_eq_ok_iff] at h
    obtain ⟨g, h_entries, h⟩ := h
    obtain rfl := Except.ok.inj h
    rw [cut, data, Data.under, properties_data h_null entries h_entries]

theorem repeated_data (h_null : IsNull null) : (items : List Foreign) → {name : String} →
    {f : Fields} → Data.repeated name (itemData null items) = .ok f →
    f = Data.elements name (itemData .none (cutItems items))
  | [], name, f, h => by
    rw [cutItems, itemData, Data.elements]
    exact (Except.ok.inj h).symm
  | item :: items, name, f, h => by
    rw [itemData, Data.repeated, bind_eq_ok_iff] at h
    obtain ⟨v, h_item, h⟩ := h
    obtain ⟨rest, h_items, h⟩ := bind_eq_ok_iff.mp h
    obtain rfl := Except.ok.inj h
    rw [cutItems, itemData, Data.elements, under_of_toValue h_null item h_item,
      repeated_data h_null items h_items]
    rfl

theorem properties_data (h_null : IsNull null) : (entries : List (String × Foreign)) →
    {f : Fields} → Data.properties (entryData null entries) = .ok f →
    f = Data.entryProperties (entryData .none (cutEntries entries))
  | [], f, h => by
    rw [cutEntries, entryData, Data.entryProperties]
    exact (Except.ok.inj h).symm
  | (name, value) :: entries, f, h => by
    rw [entryData, Data.properties, Data.importKey, ok_bind, append_eq_ok_iff] at h
    obtain ⟨first, rest, h_value, h_entries, rfl⟩ := h
    rw [cutEntries, entryData, Data.entryProperties, importEntry_data h_null value h_value,
      properties_data h_null entries h_entries]
    rfl

end

/-- Named data is taken over as a document. -/
theorem toValue_map (entries : List (String × Foreign)) (v : Value) :
    ((Foreign.map entries).data null).toValue = .ok v ↔
      ∃ f, v = .object f ∧ ((Foreign.map entries).data null).importFields = .ok f := by
  rw [Data.importFields, data, Data.toValue]
  cases Data.properties (entryData null entries) with
  | error e => simp [bind, Except.bind]
  | ok f => simp [pure, Except.pure, Value.toFields, eq_comm]

/-- Named data that is taken over is flattened to the same document, but for the elements
that are cut off where a sequence stands in another one.  Flattening refuses such data.  Null
is a missing value to the one, and nothing or a missing value to the other. -/
theorem toFields_of_importFields (h_null : IsNull null) (entries : List (String × Foreign)) :
    (∀ v, ((Foreign.map entries).data null).toValue = .ok v ↔
      ∃ f, v = .object f ∧ ((Foreign.map entries).data null).importFields = .ok f) ∧
    (∀ f, ((Foreign.map entries).data null).importFields = .ok f →
      ((Foreign.map entries).cut.data .none).toFields = .ok f ∧
        ((Foreign.map entries).isNested = false →
          ((Foreign.map entries).data .none).toFields = .ok f)) ∧
    ((Foreign.map entries).isNested = true →
      ((Foreign.map entries).data .none).toFields = .error .nestedSequence) := by
  refine ⟨toValue_map entries, fun f h_import => ?_, fun h_nested => ?_⟩
  · have h_value := (toValue_map entries _).mpr ⟨f, rfl, h_import⟩
    rw [data, Data.toValue, bind_eq_ok_iff] at h_value
    obtain ⟨g, h_entries, h⟩ := h_value
    cases h
    obtain rfl := properties_data h_null entries h_entries
    have h_cut := toFields_data (entriesNested_cutEntries entries)
    rw [← cut] at h_cut
    refine ⟨h_cut, fun h_nested => ?_⟩
    rwa [cut_eq_self _ h_nested] at h_cut
  · exact toFields_nested (by rwa [isNested] at h_nested)

/-- What is missing leaves nothing, and a sequence repeats its name. -/
theorem toFields_of_importFields_record :
    ((Foreign.map [("name", .null), ("port", .seq [.integer false ⟨80, by decide⟩, .map []]),
        ("on", .bool true)]).data .unit).importFields =
      .ok [("port", .text "80"), ("port", .object []), ("on", .text "true")] ∧
    ((Foreign.map [("name", .null), ("port", .seq [.integer false ⟨80, by decide⟩, .map []]),
        ("on", .bool true)]).data .none).toFields =
      .ok [("port", .text "80"), ("port", .object []), ("on", .text "true")] :=
  ⟨rfl, ((toFields_of_importFields (.inl rfl) _).2.1 _ rfl).2 rfl⟩

/-- Elements of a sequence in a sequence are lost without a word. -/
theorem importFields_loses_elements :
    ((Foreign.map [("a", .seq [.seq [.string "1", .string "2"]])]).data .unit).importFields =
      .ok [("a", .text "2")] ∧
    ((Foreign.map [("a", .seq [.seq [.string "1", .string "2"]])]).data .none).toFields =
      .error .nestedSequence :=
  ⟨rfl, rfl⟩

end Foreign
end PropertyText
