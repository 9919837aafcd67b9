/-
  PropertyText.Text.Bare

  Which strings may stand in a document without quotes.
-/
import PropertyText.Bytes

namespace PropertyText

/-- ASCII letters and digits and the four marks `_ - + .` may stand in a bare string. -/
def isBareByte (b : UInt8) : Bool :=
  Ascii.isDigit b || Ascii.isUpper b || Ascii.isLower b ||
    b == 0x5f || b == 0x2d || b == 0x2b || b == 0x2e

/-- A string can be written bare when it is not empty and every byte of it may stand there. -/
def isBare (text : Bytes) : Bool :=
  !text.isEmpty && text.all isBareByte

@[simp] theorem isBare_nil : isBare [] = false := rfl

@[simp] theorem isBare_cons (b : UInt8) (text : Bytes) :
    isBare (b :: text) = (isBareByte b && text.all isBareByte) := by
  simp [isBare]

end PropertyText
