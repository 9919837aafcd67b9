/-
  PropertyText.Proofs.Data.Flattened

  Which values have a document, and which document it is.  The document is told by recursion
  on the value alone (`Data.flattened`), and so is what is asked of each part of a value that
  has one (`Data.Fit`).  Main statement: `Data.toFields_eq_ok_iff`.
-/
import PropertyText.Data.Flatten
import PropertyText.Proofs.Except

namespace PropertyText
namespace Data

/-! ## What a value leaves behind -/

/-- The text that a key is, below all layers. -/
def keyText : Data → String
  | .scalar value => value.render
  | .bytes raw => Utf8.decode raw
  | .unitVariant variant => variant
  | .some value | .newtypeStruct value => keyText value
  | _ => ""

mutual

/-- The properties that a value leaves under a name: none where it is absent, one for a text
or an object, and for a sequence those of its elements one after the other.  A variant with a
payload is an object whose properties all bear the variant's name. -/
def under (name : String) : Data → Fields
  | .none | .unit | .unitStruct => []
  | .some value | .newtypeStruct value => under name value
  | .scalar value => [(name, .text value.render)]
  | .bytes raw => [(name, .text (Utf8.decode raw))]
  | .unitVariant variant => [(name, .text variant)]
  | .seq items | .tuple items | .tupleStruct items => elements name items
  | .map entries => [(name, .object (entryProperties entries))]
  | .mapParts parts => [(name, .object (partProperties "" parts))]
  | .struct fields => [(name, .object (fieldProperties fields))]
  | .newtypeVariant variant value => [(name, .object (under variant value))]
  | .structVariant variant fields =>
    [(name, .object [(variant, .object (fieldProperties fields))])]
  | .tupleVariant _ _ | .failing _ => []

def elements (name : String) : List Data → Fields
  | [] => []
  | item :: items => under name item ++ elements name items

def fieldProperties : List (String × Data) → Fields
  | [] => []
  | (name, value) :: fields => under name value ++ fieldProperties fields

def entryProperties : List (Data × Data) → Fields
  | [] => []
  | (key, value) :: entries => under key.keyText value ++ entryProperties entries

/-- A value stands under the key in front of it. -/
def partProperties (name : String) : List (MapSide × Data) → Fields
  | [] => []
  | (.key, key) :: parts => partProperties key.keyText parts
  | (.value, value) :: parts => under name value ++ partProperties "" parts

end

/-- The properties of the object that a value is, below all layers. -/
def flattened : Data → Fields
  | .some value | .newtypeStruct value => flattened value
  | .map entries => entryProperties entries
  | .mapParts parts => partProperties "" parts
  | .struct fields => fieldProperties fields
  | .newtypeVariant variant value => under variant value
  | .structVariant variant fields => [(variant, .object (fieldProperties fields))]
  | _ => []

/-! ## What is asked of a value -/

/-- The value below the layers that leave no trace. -/
def bare : Data → Data
  | .some value | .newtypeStruct value => bare value
  | d => d

/-- The values that are a single text. -/
def isText : Data → Bool
  | .scalar _ | .bytes _ | .unitVariant _ => true
  | _ => false

def isSequence : Data → Bool
  | .seq _ | .tuple _ | .tupleStruct _ => true
  | _ => false

/-- The values with named parts. -/
def isObject : Data → Bool
  | .map _ | .mapParts _ | .struct _ | .newtypeVariant _ _ | .structVariant _ _ => true
  | _ => false

/-- The values that a value consists of. -/
def children : Data → List Data
  | .some value | .newtypeStruct value | .newtypeVariant _ value => [value]
  | .seq items | .tuple items | .tupleStruct items | .tupleVariant _ items => items
  | .map entries => entries.map (·.1) ++ entries.map (·.2)
  | .mapParts parts => parts.map (·.2)
  | .struct fields | .structVariant _ fields => fields.map (·.2)
  | .scalar _ | .bytes _ | .none | .unit | .unitStruct | .unitVariant _ | .failing _ => []

/-- A value within another, at any depth. -/
inductive Within : Data → Data → Prop where
  | refl (d : Data) : Within d d
  | child {p c d : Data} (h_child : c ∈ d.children) (h : Within p c) : Within p d

/-- Every value of a map comes right behind a key, of which one may be waiting in front. -/
def paired : Bool → List (MapSide × Data) → Bool
  | _, [] => true
  | _, (.key, _) :: parts => paired true parts
  | waiting, (.value, _) :: parts => waiting && paired false parts

/-- What is asked of each part of a value by itself.  Keys are texts, no element of a sequence
is a sequence again, the payload of a variant leaves something that can bear the variant's
name, and a value that is side by side with others under a variant, or that cannot be taken
apart, is never fit. -/
def Fit : Data → Prop
  | .map entries => ∀ entry ∈ entries, entry.1.bare.isText = true
  | .mapParts parts =>
    paired false parts = true ∧ ∀ part ∈ parts, part.1 = .key → part.2.bare.isText = true
  | .seq items | .tuple items | .tupleStruct items =>
    ∀ item ∈ items, item.bare.isSequence = false
  | .newtypeVariant variant value => value.under variant ≠ []
  | .tupleVariant _ _ | .failing _ => False
  | _ => True

/-- Every part of the value is fit. -/
def Sound (d : Data) : Prop := ∀ p : Data, p.Within d → p.Fit

/-- The values that have a document. -/
structure Representable (d : Data) : Prop where
  top : d.bare.isObject = true
  sound : d.Sound

theorem sound_iff (d : Data) : d.Sound ↔ d.Fit ∧ ∀ c ∈ d.children, c.Sound := by
  constructor
  · intro h
    exact ⟨h d (.refl d), fun c h_child p h_within => h p (.child h_child h_within)⟩
  · rintro ⟨h_fit, h_children⟩ p h_within
    cases h_within with
    | refl => exact h_fit
    | child h_child h => exact h_children _ h_child p h

/-- A text has no parts that could be unfit. -/
theorem sound_of_isText : {d : Data} → d.bare.isText = true → d.Sound
  | .some value, h | .newtypeStruct value, h => by
    have h_value : value.Sound := sound_of_isText (by simpa [bare] using h)
    rw [sound_iff]
    exact ⟨trivial, by simpa [children] using h_value⟩
  | .scalar _, _ | .bytes _, _ | .unitVariant _, _ => by
    rw [sound_iff]
    exact ⟨trivial, by simp [children]⟩

end Data

/-! ## What a node leaves behind -/

namespace Node

def isList : Node → Bool
  | .list _ => true
  | _ => false

def isObject : Node → Bool
  | .object _ => true
  | _ => false

def isScalar : Node → Bool
  | .scalar _ => true
  | _ => false

variable {node : Node} {name : String} {f : Fields}

theorem single_eq_ok_iff :
    node.single name = .ok f ↔ node.isList = false ∧ node.properties name = .ok f := by
  cases node <;> simp [single, properties, isList]

/-- The only thing refused under a name is a sequence in a sequence. -/
theorem single_error {e : ConversionError} (h : node.single name = .error e) :
    e = .nestedSequence := by
  cases node with
  | list => exact (Except.error.inj h).symm
  | absent | scalar | object => cases h

theorem singles_error {e : ConversionError} {items : List Node}
    (h : singles name items = .error e) : e = .nestedSequence := by
  induction items with
  | nil => cases h
  | cons item items ih =>
    obtain h | ⟨_, -, h⟩ := bind_eq_error_iff.mp h
    · exact single_error h
    obtain h | ⟨_, -, h⟩ := bind_eq_error_iff.mp h
    · exact ih h
    · exact absurd h pure_ne_error

theorem properties_error {e : ConversionError} (h : node.properties name = .error e) :
    e = .nestedSequence := by
  cases node with
  | list items => exact singles_error h
  | absent | scalar | object => cases h

theorem payload_eq_ok_iff {variant : String} {result : Node} :
    node.payload variant = .ok result ↔
      ∃ f, node.properties variant = .ok f ∧ f ≠ [] ∧ result = .object f := by
  rw [payload, bind_eq_ok_iff]
  refine exists_congr fun f => and_congr_right fun _ => ?_
  cases f with
  | nil => simp [throw, throwThe, MonadExceptOf.throw]
  | cons property f => simp [pure_eq_ok_iff]

end Node

namespace Data

/-! ## Taking a value apart -/

/-- Below all layers the node of a value is of the value's kind. -/
theorem kind_of_node {d : Data} {n : Node} (h : d.node = .ok n) :
    n.isList = d.bare.isSequence ∧ n.isObject = d.bare.isObject ∧
      n.isScalar = d.bare.isText := by
  fun_induction bare d with
  | case1 value ih => exact ih (by rwa [node] at h)
  | case2 value ih => exact ih (by rwa [node] at h)
  | case3 d h_some h_newtype =>
    cases d with
    | some value => exact absurd rfl (h_some value)
    | newtypeStruct value => exact absurd rfl (h_newtype value)
    | scalar | bytes | unitVariant | none | unit | unitStruct =>
      cases h
      exact ⟨rfl, rfl, rfl⟩
    | newtypeVariant variant value =>
      rw [node, bind_eq_ok_iff] at h
      obtain ⟨a, -, h⟩ := h
      obtain ⟨f, -, -, rfl⟩ := Node.payload_eq_ok_iff.mp h
      exact ⟨rfl, rfl, rfl⟩
    | seq | tuple | tupleStruct | map | mapParts | struct | structVariant =>
      rw [node, bind_eq_ok_iff] at h
      obtain ⟨a, -, h⟩ := h
      cases h
      exact ⟨rfl, rfl, rfl⟩
    | tupleVariant | failing => rw [node] at h; cases h

/-- A text is the node of its text. -/
theorem node_of_isText {d : Data} (h : d.bare.isText = true) :
    d.node = .ok (.scalar d.keyText) := by
  fun_induction bare d with
  | case1 value ih => rw [node, keyText, ih h]
  | case2 value ih => rw [node, keyText, ih h]
  | case3 d h_some h_newtype =>
    cases d with
    | scalar | bytes | unitVariant => rw [node, keyText]
    | _ => cases h

/-- Only a text serves as a key. -/
theorem key_eq_ok_iff {d : Data} {name : String} :
    (d.node >>= Node.key) = .ok name ↔ d.bare.isText = true ∧ name = d.keyText := by
  constructor
  · intro h
    obtain ⟨n, h_node, h_key⟩ := bind_eq_ok_iff.mp h
    have h_text : d.bare.isText = true := by
      rw [← (kind_of_node h_node).2.2]
      cases n with
      | scalar => rfl
      | absent | object | list => cases h_key
    rw [node_of_isText h_text] at h
    exact ⟨h_text, (Except.ok.inj h).symm⟩
  · rintro ⟨h_text, rfl⟩
    rw [node_of_isText h_text]
    rfl

/-- The properties that a value leaves under a name, if it can be taken apart. -/
def leave (d : Data) (name : String) : Except ConversionError Fields := do
  (← d.node).properties name

/-- Where no sequence may stand, a sequence is refused. -/
theorem single_eq_ok_iff {d : Data} {name : String} {f : Fields} :
    (d.node >>= Node.single name) = .ok f ↔
      d.bare.isSequence = false ∧ d.leave name = .ok f := by
  simp only [leave, bind_eq_ok_iff, Node.single_eq_ok_iff]
  constructor
  · rintro ⟨n, h_node, h_list, h⟩
    exact ⟨(kind_of_node h_node).1 ▸ h_list, n, h_node, h⟩
  · rintro ⟨h_sequence, n, h_node, h⟩
    exact ⟨n, h_node, (kind_of_node h_node).1.trans h_sequence, h⟩

theorem leave_object {x : Except ConversionError Fields} {name : String} {f : Fields} :
    ((do return Node.object (← x)) >>= Node.properties name) = .ok f ↔
      ∃ g, x = .ok g ∧ f = [(name, .object g)] := by
  cases x with
  | error e => simp [bind, Except.bind]
  | ok g => simp [pure, Except.pure, Node.properties, Node.single, eq_comm]

theorem leave_list {items : List Data} {name : String} :
    ((do return Node.list (← nodes items)) >>= Node.properties name) =
      (nodes items >>= Node.singles name) := by
  cases nodes items <;> rfl

theorem namedFields_cons (name : String) (value : Data) (fields : List (String × Data)) :
    namedFields ((name, value) :: fields) = do
      let first ← value.leave name
      let rest ← namedFields fields
      return first ++ rest := by
  rw [namedFields, leave, bind_assoc]

theorem singles_cons {item : Data} {items : List Data} {name : String} {f : Fields} :
    (nodes (item :: items) >>= Node.singles name) = .ok f ↔
      ∃ first rest, (item.node >>= Node.single name) = .ok first ∧
        (nodes items >>= Node.singles name) = .ok rest ∧ f = first ++ rest := by
  simp only [nodes, bind_eq_ok_iff, pure_eq_ok_iff]
  constructor
  · rintro ⟨ns, ⟨n, h_item, rest, h_items, rfl⟩, h⟩
    rw [Node.singles, append_eq_ok_iff] at h
    obtain ⟨a, b, h_a, h_b, rfl⟩ := h
    exact ⟨a, b, ⟨n, h_item, h_a⟩, ⟨rest, h_items, h_b⟩, rfl⟩
  · rintro ⟨a, b, ⟨n, h_item, h_a⟩, ⟨ns, h_items, h_b⟩, rfl⟩
    refine ⟨n :: ns, ⟨n, h_item, ns, h_items, rfl⟩, ?_⟩
    rw [Node.singles, append_eq_ok_iff]
    exact ⟨a, b, h_a, h_b, rfl⟩

/-- A payload stands under the name of its variant, and must leave something there. -/
theorem leave_newtypeVariant {value : Data} {variant name : String} {f : Fields} :
    (newtypeVariant variant value).leave name = .ok f ↔
      ∃ g, value.leave variant = .ok g ∧ g ≠ [] ∧ f = [(name, .object g)] := by
  simp only [leave, node, bind_eq_ok_iff, Node.payload_eq_ok_iff]
  constructor
  · rintro ⟨_, ⟨n, h_node, g, h_g, h_ne, rfl⟩, h⟩
    exact ⟨g, ⟨n, h_node, h_g⟩, h_ne, (Except.ok.inj h).symm⟩
  · rintro ⟨g, ⟨n, h_node, h_g⟩, h_ne, rfl⟩
    exact ⟨_, ⟨n, h_node, g, h_g, h_ne, rfl⟩, rfl⟩

theorem leave_structVariant {fields : List (String × Data)} {variant name : String} {f : Fields} :
    (structVariant variant fields).leave name = .ok f ↔
      ∃ g, namedFields fields = .ok g ∧ f = [(name, .object [(variant, .object g)])] := by
  rw [leave, node]
  cases namedFields fields with
  | error e => simp [bind, Except.bind]
  | ok g => simp [pure, Except.pure, Node.properties, Node.single, eq_comm]

theorem entryFields_cons (key value : Data) (entries : List (Data × Data)) :
    entryFields ((key, value) :: entries) = do
      let name ← key.node >>= Node.key
      let first ← value.leave name
      let rest ← entryFields entries
      return first ++ rest := by
  simp only [entryFields, leave, bind_assoc]

theorem partFields_key (current : Option String) (key : Data) (parts : List (MapSide × Data)) :
    partFields current ((.key, key) :: parts) =
      (key.node >>= Node.key) >>= fun name => partFields (Option.some name) parts := by
  rw [partFields, bind_assoc]

theorem partFields_value (name : String) (value : Data) (parts : List (MapSide × Data)) :
    partFields (Option.some name) ((.value, value) :: parts) = do
      let first ← value.leave name
      let rest ← partFields Option.none parts
      return first ++ rest := by
  rw [partFields, leave, bind_assoc]

mutual

/-- A value leaves its properties under a name if every part of it is fit. -/
theorem leave_eq_ok_iff : (d : Data) → (name : String) → (f : Fields) →
    (d.leave name = .ok f ↔ d.Sound ∧ f = d.under name)
  | .some value, name, f | .newtypeStruct value, name, f => by
    rw [sound_iff, leave, node, under, ← leave, leave_eq_ok_iff value name f]
    simp [Fit, children]
  | .none, name, f | .unit, name, f | .unitStruct, name, f => by
    rw [sound_iff, leave, node, under]
    simp [Fit, children, Node.properties, Node.single]
  | .scalar _, name, f | .bytes _, name, f | .unitVariant _, name, f => by
    rw [sound_iff, leave, node, under]
    simp only [Fit, children, List.not_mem_nil, false_implies, implies_true, true_and]
    exact ⟨fun h => (Except.ok.inj h).symm, fun h => congrArg Except.ok h.symm⟩
  | .tupleVariant _ _, name, f | .failing _, name, f => by
    rw [sound_iff, leave, node]
    simp [Fit, bind, Except.bind]
  | .newtypeVariant variant value, name, f => by
    rw [sound_iff, leave_newtypeVariant, under]
    simp only [leave_eq_ok_iff value variant, Fit, children, List.forall_mem_singleton]
    constructor
    · rintro ⟨_, ⟨h_value, rfl⟩, h_ne, rfl⟩
      exact ⟨⟨h_ne, h_value⟩, rfl⟩
    · rintro ⟨⟨h_ne, h_value⟩, rfl⟩
      exact ⟨_, ⟨h_value, rfl⟩, h_ne, rfl⟩
  | .seq items, name, f | .tuple items, name, f | .tupleStruct items, name, f => by
    rw [sound_iff, leave, node, under, leave_list, elements_eq_ok_iff items name f]
    simp only [Fit, children, forall_and]
  | .map entries, name, f => by
    rw [sound_iff, leave, node, under, leave_object]
    simp only [entries_eq_ok_iff entries, Fit, children, List.forall_mem_append,
      List.forall_mem_map, forall_and]
    constructor
    · rintro ⟨_, ⟨⟨h_keys, h_values⟩, rfl⟩, rfl⟩
      exact ⟨⟨h_keys, fun entry h_mem => sound_of_isText (h_keys entry h_mem), h_values⟩, rfl⟩
    · rintro ⟨⟨h_keys, -, h_values⟩, rfl⟩
      exact ⟨_, ⟨⟨h_keys, h_values⟩, rfl⟩, rfl⟩
  | .mapParts parts, name, f => by
    rw [sound_iff, leave, node, under, leave_object]
    simp only [parts_eq_ok_iff parts, Fit, children, List.forall_mem_map, forall_and]
    constructor
    · rintro ⟨_, ⟨h_paired, ⟨h_keys, h_parts⟩, rfl⟩, rfl⟩
      exact ⟨⟨⟨h_paired, h_keys⟩, h_parts⟩, rfl⟩
    · rintro ⟨⟨⟨h_paired, h_keys⟩, h_parts⟩, rfl⟩
      exact ⟨_, ⟨h_paired, ⟨h_keys, h_parts⟩, rfl⟩, rfl⟩
  | .struct fields, name, f => by
    rw [sound_iff, leave, node, under, leave_object]
    simp only [fields_eq_ok_iff fields, Fit, children, List.forall_mem_map, true_and]
    constructor
    · rintro ⟨_, ⟨h_fields, rfl⟩, rfl⟩
      exact ⟨h_fields, rfl⟩
    · rintro ⟨h_fields, rfl⟩
      exact ⟨_, ⟨h_fields, rfl⟩, rfl⟩
  | .structVariant variant fields, name, f => by
    rw [sound_iff, leave_structVariant, under]
    simp only [fields_eq_ok_iff fields, Fit, children, List.forall_mem_map, true_and]
    constructor
    · rintro ⟨_, ⟨h_fields, rfl⟩, rfl⟩
      exact ⟨h_fields, rfl⟩
    · rintro ⟨h_fields, rfl⟩
      exact ⟨_, ⟨h_fields, rfl⟩, rfl⟩

theorem elements_eq_ok_iff : (items : List Data) → (name : String) → (f : Fields) →
    ((nodes items >>= Node.singles name) = .ok f ↔
      (∀ item ∈ items, item.bare.isSequence = false ∧ item.Sound) ∧ f = elements name items)
  | [], name, f => by simp [nodes, Node.singles, elements]
  | item :: items, name, f => by
    rw [singles_cons, elements, List.forall_mem_cons]
    simp only [single_eq_ok_iff, leave_eq_ok_iff item name, elements_eq_ok_iff items name]
    constructor
    · rintro ⟨_, _, ⟨h_item, h_sound, rfl⟩, ⟨h_items, rfl⟩, rfl⟩
      exact ⟨⟨⟨h_item, h_sound⟩, h_items⟩, rfl⟩
    · rintro ⟨⟨⟨h_item, h_sound⟩, h_items⟩, rfl⟩
      exact ⟨_, _, ⟨h_item, h_sound, rfl⟩, ⟨h_items, rfl⟩, rfl⟩

theorem fields_eq_ok_iff : (fields : List (String × Data)) → (f : Fields) →
    (namedFields fields = .ok f ↔
      (∀ field ∈ fields, field.2.Sound) ∧ f = fieldProperties fields)
  | [], f => by simp [namedFields, fieldProperties]
  | (name, value) :: fields, f => by
    rw [namedFields_cons, append_eq_ok_iff, fieldProperties, List.forall_mem_cons]
    simp only [leave_eq_ok_iff value name, fields_eq_ok_iff fields]
    constructor
    · rintro ⟨_, _, ⟨h_value, rfl⟩, ⟨h_fields, rfl⟩, rfl⟩
      exact ⟨⟨h_value, h_fields⟩, rfl⟩
    · rintro ⟨⟨h_value, h_fields⟩, rfl⟩
      exact ⟨_, _, ⟨h_value, rfl⟩, ⟨h_fields, rfl⟩, rfl⟩

theorem entries_eq_ok_iff : (entries : List (Data × Data)) → (f : Fields) →
    (entryFields entries = .ok f ↔
      (∀ entry ∈ entries, entry.1.bare.isText = true ∧ entry.2.Sound) ∧
        f = entryProperties entries)
  | [], f => by simp [entryFields, entryProperties]
  | (key, value) :: entries, f => by
    rw [entryFields_cons, bind_eq_ok_iff, entryProperties, List.forall_mem_cons]
    simp only [key_eq_ok_iff, append_eq_ok_iff, leave_eq_ok_iff value,
      entries_eq_ok_iff entries]
    constructor
    · rintro ⟨_, ⟨h_key, rfl⟩, _, _, ⟨h_value, rfl⟩, ⟨h_entries, rfl⟩, rfl⟩
      exact ⟨⟨⟨h_key, h_value⟩, h_entries⟩, rfl⟩
    · rintro ⟨⟨⟨h_key, h_value⟩, h_entries⟩, rfl⟩
      exact ⟨_, ⟨h_key, rfl⟩, _, _, ⟨h_value, rfl⟩, ⟨h_entries, rfl⟩, rfl⟩

theorem parts_eq_ok_iff : (parts : List (MapSide × Data)) → (current : Option String) →
    (f : Fields) →
    (partFields current parts = .ok f ↔
      paired current.isSome parts = true ∧
        (∀ part ∈ parts, (part.1 = .key → part.2.bare.isText = true) ∧ part.2.Sound) ∧
        f = partProperties (current.getD "") parts)
  | [], current, f => by simp [partFields, paired, partProperties]
  | (.key, key) :: parts, current, f => by
    rw [partFields_key, bind_eq_ok_iff, paired, partProperties, List.forall_mem_cons]
    simp only [key_eq_ok_iff, parts_eq_ok_iff parts]
    constructor
    · rintro ⟨_, ⟨h_key, rfl⟩, h_paired, h_parts, rfl⟩
      exact ⟨h_paired, ⟨⟨fun _ => h_key, sound_of_isText h_key⟩, h_parts⟩, rfl⟩
    · rintro ⟨h_paired, ⟨⟨h_key, -⟩, h_parts⟩, rfl⟩
      exact ⟨_, ⟨h_key trivial, rfl⟩, h_paired, h_parts, rfl⟩
  | (.value, value) :: parts, Option.none, f => by
    rw [partFields, paired]
    simp
  | (.value, value) :: parts, Option.some name, f => by
    rw [partFields_value, append_eq_ok_iff, paired, partProperties, List.forall_mem_cons]
    simp only [leave_eq_ok_iff value, parts_eq_ok_iff parts]
    constructor
    · rintro ⟨_, _, ⟨h_value, rfl⟩, ⟨h_paired, h_parts, rfl⟩, rfl⟩
      exact ⟨h_paired, ⟨⟨by simp, h_value⟩, h_parts⟩, rfl⟩
    · rintro ⟨h_paired, ⟨⟨-, h_value⟩, h_parts⟩, rfl⟩
      exact ⟨_, _, ⟨h_value, rfl⟩, ⟨by simpa using h_paired, h_parts, rfl⟩, rfl⟩

end

/-! ## The document of a value -/

theorem under_of_isObject {d : Data} (h : d.bare.isObject = true) (name : String) :
    d.under name = [(name, .object d.flattened)] := by
  fun_induction bare d with
  | case1 value ih => rw [under, flattened, ih h]
  | case2 value ih => rw [under, flattened, ih h]
  | case3 d h_some h_newtype =>
    cases d with
    | map | mapParts | struct | newtypeVariant | structVariant => rw [under, flattened]
    | _ => cases h

theorem toFields_eq_ok_iff_node {d : Data} {f : Fields} :
    d.toFields = .ok f ↔ d.node = .ok (.object f) := by
  rw [toFields]
  split <;> simp_all

/-- A value has a document if it has named parts and each of its parts is fit, and the
document is the value flattened. -/
theorem toFields_eq_ok_iff (d : Data) (f : Fields) :
    d.toFields = .ok f ↔ d.Representable ∧ f = d.flattened := by
  rw [toFields_eq_ok_iff_node]
  constructor
  · intro h_node
    have h_top : d.bare.isObject = true := (kind_of_node h_node).2.1.symm
    have h_leave : d.leave "" = .ok [("", .object f)] := by rw [leave, h_node]; rfl
    rw [leave_eq_ok_iff, under_of_isObject h_top] at h_leave
    obtain ⟨h_sound, h_eq⟩ := h_leave
    exact ⟨⟨h_top, h_sound⟩, by simpa using h_eq⟩
  · rintro ⟨⟨h_top, h_sound⟩, rfl⟩
    have h_leave : d.leave "" = .ok [("", .object d.flattened)] := by
      rw [leave_eq_ok_iff, under_of_isObject h_top]
      exact ⟨h_sound, rfl⟩
    obtain ⟨n, h_node, h_properties⟩ := bind_eq_ok_iff.mp h_leave
    cases n with
    | object g =>
      obtain rfl : g = d.flattened := by
        simpa [Node.properties, Node.single] using h_properties
      exact h_node
    | absent | scalar | list =>
      have h_kind := (kind_of_node h_node).2.1
      rw [h_top] at h_kind
      cases h_kind

end Data
end PropertyText
