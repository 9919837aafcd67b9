/-
  PropertyText.Data

  Typed values of other programs, by the parts of which they consist.
-/
import PropertyText.Bytes
import PropertyText.Scalar

namespace PropertyText

/-- Which side of a map's entry a part is. -/
inductive MapSide where
  | key
  | value
  deriving DecidableEq, Repr

inductive Data where
  | scalar (value : Scalar)
  | bytes (bytes : Bytes)
  | none
  | some (value : Data)
  | unit
  | unitStruct
  | unitVariant (variant : String)
  | newtypeStruct (value : Data)
  | newtypeVariant (variant : String) (value : Data)
  | seq (items : List Data)
  | tuple (items : List Data)
  | tupleStruct (items : List Data)
  | tupleVariant (variant : String) (items : List Data)
  | map (entries : List (Data × Data))
  /-- A map whose keys and values come one by one, in any order. -/
  | mapParts (parts : List (MapSide × Data))
  | struct (fields : List (String × Data))
  | structVariant (variant : String) (fields : List (String × Data))
  /-- A value that cannot be taken apart. -/
  | failing (message : String)

end PropertyText
