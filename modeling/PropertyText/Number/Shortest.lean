/-
  PropertyText.Number.Shortest

  The decimal text of a floating-point number: the fewest digits that read back to it,
  written out without an exponent.  Of two texts with as few digits the nearer to the
  value is taken, and of two equally near ones the greater.
-/
import PropertyText.Number.Binary

namespace PropertyText

/-- The number `digits * 10 ^ exponent`. -/
structure Decimal where
  digits : Nat
  exponent : Int
  deriving DecidableEq, Repr

namespace Shortest

/-- A positive value and the ends of the interval of reals that round to it, as natural
numbers over one denominator.  The ends belong to the interval if `closed`. -/
structure Interval where
  low : Nat
  value : Nat
  high : Nat
  denominator : Nat
  closed : Bool

/-- The reals that round to `significand * 2 ^ exponent`: from halfway to the neighbour
below to halfway to the neighbour above.  Just above a power of two the neighbour below is
only half as far away. -/
def Interval.around (f : BinaryFormat) (significand : Nat) (exponent : Int) : Interval :=
  let narrow := significand == Nat.pow 2 f.fractionBits && f.leastExponent < exponent
  -- All three numbers are multiples of a quarter of the last digit's worth.
  let up := Nat.pow 2 (exponent - 2).toNat
  { low := (4 * significand - if narrow then 1 else 2) * up
    value := 4 * significand * up
    high := (4 * significand + 2) * up
    denominator := Nat.pow 2 (2 - exponent).toNat
    closed := significand % 2 == 0 }

/-- A decimal compared with a numerator of the interval. -/
def Interval.compare (i : Interval) (d : Decimal) (numerator : Nat) : Ordering :=
  Ord.compare (d.digits * Nat.pow 10 d.exponent.toNat * i.denominator)
    (numerator * Nat.pow 10 (-d.exponent).toNat)

/-- A decimal in the interval reads back to the value. -/
def Interval.holds (i : Interval) (d : Decimal) : Bool :=
  let low := i.compare d i.low
  let high := i.compare d i.high
  (low == .gt || (i.closed && low == .eq)) && (high == .lt || (i.closed && high == .eq))

/-- The least exponent whose power of ten is above the value, from a first guess. -/
def Interval.magnitude (i : Interval) : Int :=
  let guess : Int := ((i.value.log2 : Int) - (i.denominator.log2 : Int)) * 30103 / 100000
  let above (k : Int) : Bool := i.compare ⟨1, k⟩ i.value == .gt
  if above (guess - 1) then guess - 1
  else if above guess then guess
  else if above (guess + 1) then guess + 1
  else guess + 2

/-- The greatest decimal with the given exponent that is not above the value. -/
def Interval.below (i : Interval) (exponent : Int) : Decimal :=
  ⟨i.value * Nat.pow 10 (-exponent).toNat / (i.denominator * Nat.pow 10 exponent.toNat), exponent⟩

/-- Whether the upper of two neighbouring decimals is at least as near to the value. -/
def Interval.upperNearer (i : Interval) (lower : Decimal) : Bool :=
  i.compare ⟨2 * lower.digits + 1, lower.exponent⟩ (2 * i.value) != .gt

/-- The decimal with the given exponent that reads back and is nearest to the value. -/
def Interval.onGrid? (i : Interval) (exponent : Int) : Option Decimal :=
  let lower := i.below exponent
  let upper : Decimal := ⟨lower.digits + 1, exponent⟩
  match i.holds lower, i.holds upper with
  | true, true => some (if i.upperNearer lower then upper else lower)
  | true, false => some lower
  | false, true => some upper
  | false, false => none

/-- Moves the zeros at the end of the digits into the exponent. -/
def strip (d : Decimal) : Decimal :=
  if h : d.digits % 10 = 0 ∧ d.digits ≠ 0 then strip ⟨d.digits / 10, d.exponent + 1⟩ else d
termination_by d.digits
decreasing_by omega

/-- The value itself as a decimal. -/
def Interval.exact (i : Interval) : Decimal :=
  ⟨i.value * Nat.pow 5 i.denominator.log2, -(i.denominator.log2 : Int)⟩

/-- The decimal with the fewest digits that reads back to a positive value. -/
def select (f : BinaryFormat) (significand : Nat) (exponent : Int) : Decimal :=
  let i := Interval.around f significand exponent
  let magnitude := i.magnitude
  -- One digit first, then one more at a time; seventeen are always enough.
  let grids := (List.range 17).map fun (n : Nat) => magnitude - 1 - (n : Int)
  strip ((grids.findSome? i.onGrid?).getD i.exact)

end Shortest

namespace Number

/-- A decimal written out with a point where one is needed. -/
def positional (d : Decimal) : List Char :=
  let digits := Nat.toDigits 10 d.digits
  if 0 ≤ d.exponent then digits ++ List.replicate d.exponent.toNat '0'
  else
    let places := (-d.exponent).toNat
    if places < digits.length then
      digits.take (digits.length - places) ++ '.' :: digits.drop (digits.length - places)
    else '0' :: '.' :: List.replicate (places - digits.length) '0' ++ digits

/-- The text of a floating-point number, given by its bits. -/
def floatText (f : BinaryFormat) (bits : Nat) : String :=
  let signed (negative : Bool) (text : List Char) : String :=
    String.ofList (if negative then '-' :: text else text)
  match f.value bits with
  | .notANumber => "NaN"
  | .infinite negative => signed negative "inf".toList
  | .finite negative 0 _ => signed negative ['0']
  | .finite negative significand exponent =>
    signed negative (positional (Shortest.select f significand exponent))

end Number
end PropertyText
