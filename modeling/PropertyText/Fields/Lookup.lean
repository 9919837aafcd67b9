/-
  PropertyText.Fields.Lookup

  Finding properties by name.  Where a name repeats, the last property under it is the
  one that counts for a single value, and all of them count for a list.
-/
import PropertyText.Fields

namespace PropertyText
namespace Fields

/-- The value of the last property of a name. -/
def get? (f : Fields) (name : String) : Option Value :=
  (f.reverse.find? (·.1 == name)).map (·.2)

/-- The last value of a name, if it is a text. -/
def getText? (f : Fields) (name : String) : Option String := (f.get? name).bind Value.text?

/-- The values of all properties of a name, in order. -/
def getAll (f : Fields) (name : String) : List Value :=
  (f.filter (·.1 == name)).map (·.2)

def contains (f : Fields) (name : String) : Bool := f.any (·.1 == name)

/-- Puts a value in front of the group of its name; the first value of a name begins a new
group behind the others. -/
def addToGroups (name : String) (value : Value) :
    List (String × List Value) → List (String × List Value)
  | [] => [(name, [value])]
  | (other, values) :: rest =>
    if other = name then (other, value :: values) :: rest
    else (other, values) :: addToGroups name value rest

/-- The values by name: the names in the order in which they first appear, the values of
each in the order in which they stand. -/
def grouped (f : Fields) : List (String × List Value) :=
  (f.foldl (fun groups (name, value) => addToGroups name value groups) []).map
    fun (name, values) => (name, values.reverse)

/-- Adds a property to every object of a name. -/
def pushInto (f : Fields) (name : String) (inner : String) (value : Value) : Fields :=
  f.map fun
    | (other, .object g) =>
      if other = name then (other, .object (push g inner value)) else (other, .object g)
    | entry => entry

/-- How many properties of a name hold an object. -/
def objectCount (f : Fields) (name : String) : Nat :=
  (f.getAll name).countP fun v => v.object?.isSome

end Fields
end PropertyText
