/-
  PropertyText.Number.Integer

  Whole numbers of a fixed width: their decimal text, and which texts name a number of a
  given type.
-/

namespace PropertyText

/-- How many bits an integer type has; `word` is the machine word. -/
inductive Width where
  | w8
  | w16
  | w32
  | w64
  | w128
  | word
  deriving DecidableEq, Repr

namespace Width

/-- A machine word has 64 bits. -/
def bits : Width → Nat
  | .w8 => 8
  | .w16 => 16
  | .w32 => 32
  | .w64 => 64
  | .w128 => 128
  | .word => 64

/-- The end of the type's name. -/
def suffix : Width → String
  | .w8 => "8"
  | .w16 => "16"
  | .w32 => "32"
  | .w64 => "64"
  | .w128 => "128"
  | .word => "size"

end Width

/-- An integer type: whether it has negative values, and its width. -/
structure IntType where
  signed : Bool
  width : Width
  deriving DecidableEq, Repr

namespace IntType

def name (t : IntType) : String :=
  (if t.signed then "i" else "u") ++ t.width.suffix

/-- The least value of the type. -/
def least (t : IntType) : Int :=
  if t.signed then -(Nat.pow 2 (t.width.bits - 1) : Nat) else 0

/-- The greatest value of the type. -/
def greatest (t : IntType) : Int :=
  if t.signed then (Nat.pow 2 (t.width.bits - 1) : Nat) - 1 else (Nat.pow 2 t.width.bits : Nat) - 1

/-- The values of the type. -/
def Holds (t : IntType) (n : Int) : Prop := t.least ≤ n ∧ n ≤ t.greatest

instance (t : IntType) (n : Int) : Decidable (t.Holds n) :=
  inferInstanceAs (Decidable (_ ∧ _))

/-- A number of the type. -/
abbrev Value (t : IntType) := { n : Int // t.Holds n }

theorem holds_zero (t : IntType) : t.Holds 0 := by
  rcases t with ⟨signed, width⟩
  cases signed <;> cases width <;> decide

end IntType

namespace Number

/-- The decimal text of a whole number. -/
def integerText : Int → String
  | .ofNat n => String.ofList (Nat.toDigits 10 n)
  | .negSucc n => String.ofList ('-' :: Nat.toDigits 10 (n + 1))

/-- Takes a sign off the front of a text; without one the number is not negative. -/
def splitSign : List Char → Bool × List Char
  | '-' :: rest => (true, rest)
  | '+' :: rest => (false, rest)
  | rest => (false, rest)

/-- A number with the given sign and size. -/
def withSign (negative : Bool) (size : Nat) : Int :=
  if negative then -(size : Int) else size

end Number

/-- The number of a given type that a text names: a sign, then one or more digits, and
nothing else.  A type without negative values takes no minus sign, not even before zero. -/
def IntType.parse? (t : IntType) (text : String) : Option t.Value :=
  let (negative, digits) := Number.splitSign text.toList
  if digits.isEmpty || !digits.all Char.isDigit || (negative && !t.signed) then none
  else
    let value := Number.withSign negative (Nat.ofDigitChars 10 digits 0)
    if h : t.Holds value then some ⟨value, h⟩ else none

end PropertyText
