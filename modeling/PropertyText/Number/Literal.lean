/-
  PropertyText.Number.Literal

  Reading a floating-point number from text: a sign, then a word for an infinity or for
  the number that is none, or decimal digits with a point and an exponent.  The value is
  rounded once, from the exact decimal to the wanted format.  An exponent has weight up to
  the digit with which it reaches 65536, and what digits follow has none.
-/
import PropertyText.Number.Binary
import PropertyText.Number.Integer

namespace PropertyText
namespace Literal

/-- From here on, an exponent takes no further digits. -/
def exponentLimit : Nat := 65536

/-- The number that the digits of an exponent stand for. -/
def exponentValue (digits : List Char) : Nat :=
  digits.foldl (fun n c => if n < exponentLimit then 10 * n + (c.toNat - '0'.toNat) else n) 0

/-- The exponent part of a number: nothing, or `e` or `E` with a sign and digits. -/
def exponent? : List Char → Option Int
  | [] => some 0
  | c :: rest =>
    if c == 'e' || c == 'E' then
      let (negative, digits) := Number.splitSign rest
      if digits.isEmpty || !digits.all Char.isDigit then none
      else some (Number.withSign negative (exponentValue digits))
    else none

/-- Digits after a point, and what follows them. -/
def fraction : List Char → List Char × List Char
  | '.' :: rest => (rest.takeWhile Char.isDigit, rest.dropWhile Char.isDigit)
  | rest => ([], rest)

/-- The digits of a decimal number, the point left out, and its power of ten. -/
def decimal? (text : List Char) : Option (List Char × Int) :=
  let whole := text.takeWhile Char.isDigit
  let (part, rest) := fraction (text.dropWhile Char.isDigit)
  if whole.isEmpty && part.isEmpty then none
  else (exponent? rest).map fun e => (whole ++ part, e - (part.length : Int))

/-- More significant digits than any value has, or any middle between two neighbours. -/
def digitLimit : Nat := 800

/-- Digits that round as the given ones do, and how many places were left out behind them.
Behind the limit only one thing matters: whether any digit is not zero. -/
def condense (digits : List Char) : List Char × Nat :=
  let rest := digits.drop digitLimit
  if rest.all (· == '0') then (digits.take digitLimit, rest.length)
  else (digits.take digitLimit ++ ['1'], rest.length - 1)

/-- The bits of the value nearest to a decimal number.  Numbers with a leading digit
beyond the power 400 of ten, on either side, are infinite or zero in every format, and
are told apart before any power is computed. -/
def round (f : BinaryFormat) (negative : Bool) (digits : List Char) (exponent : Int) : Nat :=
  let significant := digits.dropWhile (· == '0')
  let magnitude := (significant.length : Int) + exponent
  if significant.isEmpty || magnitude < -400 then f.signBit negative
  else if 400 < magnitude then f.signBit negative + f.infinity
  else
    let (kept, places) := condense significant
    let exponent := exponent + (places : Int)
    f.nearest negative (Nat.ofDigitChars 10 kept 0 * Nat.pow 10 exponent.toNat)
      (Nat.pow 10 (-exponent).toNat)

end Literal

/-- The bits of the floating-point number that a text names. -/
def BinaryFormat.parse? (f : BinaryFormat) (text : String) : Option Nat :=
  let (negative, rest) := Number.splitSign text.toList
  let word := String.ofList (rest.map Char.toLower)
  if word == "inf" || word == "infinity" then some (f.signBit negative + f.infinity)
  else if word == "nan" then some (f.signBit negative + f.quietNaN)
  else (Literal.decimal? rest).map fun (digits, exponent) =>
    Literal.round f negative digits exponent

end PropertyText
