/-
  PropertyText.Text.Shown

  Text as messages show it: between quotes, on one line, and with every character that
  a reader could not see or could not tell apart written by its code point.
-/
import PropertyText.Unicode.Extending
import PropertyText.Unicode.Invisible

namespace PropertyText

/-- A character by its code point, as in `\u{1f}`. -/
def codePointEscape (c : Char) : List Char :=
  "\\u\x7b".toList ++ Nat.toDigits 16 c.toNat ++ ['\x7d']

/-- One character as it is shown between quotes. -/
def shownChar (c : Char) : List Char :=
  if c = '\x00' then ['\\', '0']
  else if c = '\t' then ['\\', 't']
  else if c = '\r' then ['\\', 'r']
  else if c = '\n' then ['\\', 'n']
  else if c = '"' then ['\\', '"']
  else if c = '\\' then ['\\', '\\']
  else if ' ' ≤ c && c ≤ '~' then [c]
  else if Unicode.isExtending c || Unicode.isInvisible c then codePointEscape c
  else [c]

/-- A text between quotes, as messages show it. -/
def shown (text : String) : String :=
  String.ofList ('"' :: text.toList.flatMap shownChar ++ ['"'])

end PropertyText
