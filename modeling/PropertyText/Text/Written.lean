/-
  PropertyText.Text.Written

  The form in which a name or a value is written: bare where that is possible, otherwise
  between quotes with the quote, the backslash and the control bytes escaped.  All other
  bytes stand for themselves, so text beyond ASCII keeps its encoding.
-/
import PropertyText.Text.Bare

namespace PropertyText

/-- A control byte in hexadecimal, as in `\x1f`. -/
def hexEscape (b : UInt8) : Bytes :=
  [Ascii.backslash, 0x78, Ascii.hexDigit (b.toNat / 16), Ascii.hexDigit (b.toNat % 16)]

/-- One byte as it is written between quotes. -/
def escaped (b : UInt8) : Bytes :=
  if b == Ascii.newline then [Ascii.backslash, 0x6e]
  else if b == Ascii.tab then [Ascii.backslash, 0x74]
  else if b == Ascii.backslash then [Ascii.backslash, Ascii.backslash]
  else if b == Ascii.quote then [Ascii.backslash, Ascii.quote]
  else if b < 0x20 then hexEscape b
  else [b]

/-- The quoted form of a string. -/
def quoted (text : Bytes) : Bytes :=
  Ascii.quote :: text.flatMap escaped ++ [Ascii.quote]

/-- The form of a name or a value in a document. -/
def written (text : Bytes) : Bytes :=
  if isBare text then text else quoted text

end PropertyText
