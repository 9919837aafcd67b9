/-
  PropertyText.Proofs.Data.Tree

  Trees among typed data.  Taken apart or taken over as it is, a tree stays what it is:
  `Value.node_toData` and `Value.toValue_toData`.
-/
import PropertyText.Data.Flatten
import PropertyText.Data.Import
import PropertyText.Proofs.Except

namespace PropertyText

/-- The node that leaves one value behind. -/
def Value.node : Value → Node
  | .text value => .scalar value
  | .object fields => .object fields

namespace Node

theorem single_node (name : String) (v : Value) : v.node.single name = .ok [(name, v)] := by
  cases v <;> rfl

theorem properties_node (name : String) (v : Value) :
    v.node.properties name = .ok [(name, v)] := by
  cases v <;> rfl

/-- A sequence of values leaves each of them behind. -/
theorem properties_list (name : String) (values : List Value) :
    (Node.list (values.map Value.node)).properties name = .ok (values.map (name, ·)) := by
  rw [properties]
  induction values with
  | nil => rfl
  | cons v values ih => simp [singles, single_node, ih]

end Node

mutual

theorem Value.node_toData : (v : Value) → v.toData.node = .ok v.node
  | .text _ => rfl
  | .object fields => by
    simp [Value.toData, Data.node, Fields.entryFields_toEntries fields, Value.node]

theorem Fields.entryFields_toEntries :
    (f : List (String × Value)) → Data.entryFields (Fields.toEntries f) = .ok f
  | [] => rfl
  | (name, v) :: f => by
    have h_key : (Data.scalar (.text name)).node = .ok (.scalar name) := rfl
    simp [Fields.toEntries, Data.entryFields, h_key, Node.key, Value.node_toData v,
      Node.properties_node, Fields.entryFields_toEntries f]

end

mutual

theorem Value.toValue_toData : (v : Value) → v.toData.toValue = .ok v
  | .text _ => rfl
  | .object fields => by
    simp [Value.toData, Data.toValue, Fields.properties_toEntries fields]

theorem Value.importEntry_toData (name : String) :
    (v : Value) → v.toData.importEntry name = .ok [(name, v)]
  | .text _ => rfl
  | .object fields => by
    simp [Value.toData, Data.importEntry, Fields.properties_toEntries fields]

theorem Fields.properties_toEntries :
    (f : List (String × Value)) → Data.properties (Fields.toEntries f) = .ok f
  | [] => rfl
  | (name, v) :: f => by
    simp [Fields.toEntries, Data.properties, Data.importKey, Value.importEntry_toData name v,
      Fields.properties_toEntries f]

end

end PropertyText
