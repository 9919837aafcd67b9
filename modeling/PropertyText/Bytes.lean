/-
  PropertyText.Bytes

  Raw document text, and the bytes to which the format gives a meaning.  A document is
  read and written byte by byte: every byte of the format's own punctuation is ASCII, so
  no character has to be decoded to find where a name or a value ends.
-/

namespace PropertyText

/-- Raw text, as it stands in a document or in a property. -/
abbrev Bytes := List UInt8

namespace Ascii

def bell : UInt8 := 0x07
def backspace : UInt8 := 0x08
def tab : UInt8 := 0x09
def newline : UInt8 := 0x0a
def carriageReturn : UInt8 := 0x0d
def space : UInt8 := 0x20
def quote : UInt8 := 0x22
def slash : UInt8 := 0x2f
def colon : UInt8 := 0x3a
def backslash : UInt8 := 0x5c
def openBrace : UInt8 := 0x7b
def closeBrace : UInt8 := 0x7d

def isDigit (b : UInt8) : Bool := 0x30 ≤ b && b ≤ 0x39

def isUpper (b : UInt8) : Bool := 0x41 ≤ b && b ≤ 0x5a

def isLower (b : UInt8) : Bool := 0x61 ≤ b && b ≤ 0x7a

/-- Space, tab, newline and carriage return separate tokens. -/
def isBlank (b : UInt8) : Bool :=
  b == space || b == tab || b == newline || b == carriageReturn

/-- The value of a hexadecimal digit of either case. -/
def hexValue? (b : UInt8) : Option Nat :=
  if isDigit b then some (b.toNat - 0x30)
  else if 0x41 ≤ b && b ≤ 0x46 then some (b.toNat - 0x37)
  else if 0x61 ≤ b && b ≤ 0x66 then some (b.toNat - 0x57)
  else none

/-- The lower-case hexadecimal digit of a value below sixteen. -/
def hexDigit (n : Nat) : UInt8 :=
  if n < 10 then UInt8.ofNat (0x30 + n) else UInt8.ofNat (0x57 + n)

end Ascii

/-- How many lines a piece of text ends. -/
def newlines (text : Bytes) : Nat := text.count Ascii.newline

@[simp] theorem newlines_nil : newlines [] = 0 := rfl

@[simp] theorem newlines_append (a b : Bytes) :
    newlines (a ++ b) = newlines a + newlines b := by
  simp [newlines]

end PropertyText
