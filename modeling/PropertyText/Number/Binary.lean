/-
  PropertyText.Number.Binary

  Binary floating-point numbers by their bits.  A finite value is a whole number times a
  power of two; `BinaryFormat.nearest` is the value nearest to a fraction, where a tie
  goes to the even neighbour and a value beyond the greatest is infinite.
-/

namespace PropertyText

/-- A binary interchange format: the digits of its significand, the leading one
included, and the width of its exponent. -/
structure BinaryFormat where
  precision : Nat
  exponentBits : Nat
  deriving DecidableEq, Repr

/-- What the bits of a floating-point number stand for. -/
inductive BinaryValue where
  | notANumber
  | infinite (negative : Bool)
  /-- The value `significand * 2 ^ exponent`. -/
  | finite (negative : Bool) (significand : Nat) (exponent : Int)
  deriving DecidableEq, Repr

namespace BinaryFormat

def single : BinaryFormat := ⟨24, 8⟩

def double : BinaryFormat := ⟨53, 11⟩

/-- The number of bits below the exponent. -/
def fractionBits (f : BinaryFormat) : Nat := f.precision - 1

/-- The exponent field of the infinities. -/
def topField (f : BinaryFormat) : Nat := Nat.pow 2 f.exponentBits - 1

/-- The exponent of the smallest positive value. -/
def leastExponent (f : BinaryFormat) : Int :=
  2 - (Nat.pow 2 (f.exponentBits - 1) : Nat) - (f.fractionBits : Int)

/-- The bits of an infinity, the sign left out. -/
def infinity (f : BinaryFormat) : Nat := f.topField * Nat.pow 2 f.fractionBits

/-- The bits of the number that is none. -/
def quietNaN (f : BinaryFormat) : Nat := f.infinity + Nat.pow 2 (f.fractionBits - 1)

/-- The bit that stands for the minus sign. -/
def signBit (f : BinaryFormat) (negative : Bool) : Nat :=
  if negative then Nat.pow 2 (f.fractionBits + f.exponentBits) else 0

/-- What a pattern of bits stands for. -/
def value (f : BinaryFormat) (bits : Nat) : BinaryValue :=
  let fraction := bits % Nat.pow 2 f.fractionBits
  let field := bits / Nat.pow 2 f.fractionBits % Nat.pow 2 f.exponentBits
  let negative := bits / Nat.pow 2 (f.fractionBits + f.exponentBits) % 2 == 1
  if field == f.topField then
    if fraction == 0 then .infinite negative else .notANumber
  else if field == 0 then .finite negative fraction f.leastExponent
  else .finite negative (Nat.pow 2 f.fractionBits + fraction) (f.leastExponent + field - 1)

/-- The quotient rounded to the nearest whole number, a tie to the even one. -/
def roundedQuotient (num den : Nat) : Nat :=
  let quotient := num / den
  let remainder := num % den
  if den < 2 * remainder || (den == 2 * remainder && quotient % 2 == 1) then quotient + 1
  else quotient

/-- The quotient divided by a power of two, as a fraction of natural numbers. -/
def scaled (num den : Nat) (exponent : Int) : Nat × Nat :=
  (num * Nat.pow 2 (-exponent).toNat, den * Nat.pow 2 exponent.toNat)

/-- The greatest power of two that is not above a positive fraction. -/
def leadingExponent (num den : Nat) : Int :=
  let guess : Int := (num.log2 : Int) - (den.log2 : Int)
  let (top, bottom) := scaled num den guess
  if top < bottom then guess - 1 else guess

/-- The bits of the value nearest to a fraction. -/
def nearest (f : BinaryFormat) (negative : Bool) (num den : Nat) : Nat :=
  if num == 0 then f.signBit negative
  else
    -- The significand gets all its digits, unless the value is too small for that.
    let exponent := max (leadingExponent num den - (f.precision - 1 : Nat)) f.leastExponent
    let (top, bottom) := scaled num den exponent
    let significand := roundedQuotient top bottom
    -- The leading digit of the significand counts one into the exponent field, so a
    -- significand that was rounded up to the next power of two lands where it should.
    let bits := (exponent - f.leastExponent).toNat * Nat.pow 2 f.fractionBits + significand
    f.signBit negative + min bits f.infinity

/-- The bits of a value in another format. -/
def convert (source target : BinaryFormat) (bits : Nat) : Nat :=
  match source.value bits with
  | .notANumber => target.quietNaN
  | .infinite negative => target.signBit negative + target.infinity
  | .finite negative significand exponent =>
    target.nearest negative (significand * Nat.pow 2 exponent.toNat) (Nat.pow 2 (-exponent).toNat)

end BinaryFormat
end PropertyText
