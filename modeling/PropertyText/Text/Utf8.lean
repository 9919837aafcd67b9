/-
  PropertyText.Text.Utf8

  Raw text as characters and back.  `Utf8.decode` never fails: a stretch of bytes that
  begins no character is replaced by one replacement character, and such a stretch is the
  longest that could still have become a character (at least one byte).  `Utf8.decode?`
  is the strict reading, and `Utf8.read` the strict reading that says where it stopped.
-/
import PropertyText.Bytes

namespace PropertyText
namespace Utf8

/-- The bytes of a text. -/
def encode (text : String) : Bytes := text.toList.flatMap String.utf8EncodeChar

@[simp] theorem encode_empty : encode "" = [] := by simp [encode]

@[simp] theorem encode_append (a b : String) : encode (a ++ b) = encode a ++ encode b := by
  simp [encode]

/-- The character whose encoding begins a piece of raw text. -/
def first? (bytes : Bytes) : Option Char :=
  (bytes.take 4).toByteArray.utf8DecodeChar? 0

/-- The bytes that may stand second in a character of several bytes, given the first;
overlong forms, surrogates and values beyond the last character are left out. -/
def secondByte (lead : UInt8) : Option (UInt8 × UInt8) :=
  if 0xc2 ≤ lead && lead ≤ 0xdf then some (0x80, 0xbf)
  else if lead == 0xe0 then some (0xa0, 0xbf)
  else if lead == 0xed then some (0x80, 0x9f)
  else if 0xe1 ≤ lead && lead ≤ 0xef then some (0x80, 0xbf)
  else if lead == 0xf0 then some (0x90, 0xbf)
  else if 0xf1 ≤ lead && lead ≤ 0xf3 then some (0x80, 0xbf)
  else if lead == 0xf4 then some (0x80, 0x8f)
  else none

/-- How many bytes at the front of text that begins no character are replaced together. -/
def brokenLength : Bytes → Nat
  | lead :: second :: rest =>
    match secondByte lead with
    | none => 1
    | some (low, high) =>
      if low ≤ second && second ≤ high then
        -- Only characters of four bytes can still go wrong after a good third byte.
        match rest with
        | third :: _ => if 0xf0 ≤ lead && 0x80 ≤ third && third ≤ 0xbf then 3 else 2
        | [] => 2
      else 1
  | _ => 1

theorem brokenLength_pos (bytes : Bytes) : 0 < brokenLength bytes := by
  unfold brokenLength
  repeat' split
  all_goals omega

/-- A stretch of bytes that begins no character. -/
structure Broken where
  /-- How many bytes stand in front of it. -/
  index : Nat
  /-- How many bytes it has; none if bytes behind it could still make it a character. -/
  length : Option Nat
  deriving DecidableEq, Repr

/-- The stretch at the front of text that begins no character. -/
def brokenAt (index : Nat) (bytes : Bytes) : Broken :=
  let length := brokenLength bytes
  let begins := bytes.head?.any fun lead => (secondByte lead).isSome
  { index, length := if begins && length == bytes.length then none else some length }

/-- The character that stands for bytes that are none. -/
def replacement : Char := '\ufffd'

/-- Reads characters in front of those already read, which stand in reverse. -/
def decodeOnto (read : List Char) (bytes : Bytes) : List Char :=
  match bytes with
  | [] => read.reverse
  | b :: rest =>
    match first? (b :: rest) with
    | some c => decodeOnto (c :: read) ((b :: rest).drop c.utf8Size)
    | none => decodeOnto (replacement :: read) ((b :: rest).drop (brokenLength (b :: rest)))
termination_by bytes.length
decreasing_by
  · have := Char.utf8Size_pos c
    simp only [List.length_drop, List.length_cons]
    omega
  · have := brokenLength_pos (b :: rest)
    simp only [List.length_drop, List.length_cons]
    omega

/-- The characters of raw text, with broken stretches replaced. -/
def decode (bytes : Bytes) : String := String.ofList (decodeOnto [] bytes)

/-- The characters of raw text, if nothing in it is broken. -/
def decode? (bytes : Bytes) : Option String :=
  if encode (decode bytes) = bytes then some (decode bytes) else none

/-- Reads characters behind those already read, which stand in reverse, up to the first
stretch that is broken. -/
def readOnto (read : List Char) (index : Nat) (bytes : Bytes) : Except Broken String :=
  match bytes with
  | [] => .ok (String.ofList read.reverse)
  | b :: rest =>
    match first? (b :: rest) with
    | some c => readOnto (c :: read) (index + c.utf8Size) ((b :: rest).drop c.utf8Size)
    | none => .error (brokenAt index (b :: rest))
termination_by bytes.length
decreasing_by
  have := Char.utf8Size_pos c
  simp only [List.length_drop, List.length_cons]
  omega

/-- The characters of raw text, or the first stretch in it that is broken. -/
def read (bytes : Bytes) : Except Broken String := readOnto [] 0 bytes

end Utf8
end PropertyText
