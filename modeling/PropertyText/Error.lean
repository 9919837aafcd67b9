/-
  PropertyText.Error

  Everything that a stream, a writer or a conversion can record, each kind by its cause,
  and the one place where the wording of messages is settled.
-/
import PropertyText.Error.Conversion

namespace PropertyText

/-- What is wrong with the text of a document. -/
inductive Malformation where
  /-- A byte that begins no token. -/
  | strayByte
  /-- A slash that begins no comment. -/
  | loneSlash
  /-- A byte-order mark that breaks off. -/
  | brokenMark
  /-- A backslash before a byte that it does not escape. -/
  | unknownEscape (byte : UInt8)
  /-- A hexadecimal escape without two hexadecimal digits. -/
  | badHex
  /-- A hexadecimal escape for the byte zero. -/
  | zeroEscape
  /-- A hexadecimal escape for a byte that is no control character. -/
  | printableEscape
  /-- The text ends inside a quoted string or inside an object. -/
  | unexpectedEnd
  /-- A closing brace where no object is open. -/
  | strayClose
  /-- A property that does not begin with its name. -/
  | nameExpected
  /-- A name that neither a colon nor an opening brace follows. -/
  | contentExpected
  /-- A colon that no string follows. -/
  | valueExpected
  /-- A fault in words of the caller's own. -/
  | described (message : String)
  deriving DecidableEq, Repr

def Malformation.message : Malformation → String
  | .strayByte => "unknown token: not valid bare-string character"
  | .loneSlash => "unknown token: '/' must begin a '//' comment"
  | .brokenMark => "invalid byte-order mark"
  | .unknownEscape byte => "unknown string escape: \\" ++ String.singleton (Char.ofNat byte.toNat)
  | .badHex => "\\x sequence must be followed by two hexadecimal characters"
  | .zeroEscape => "NUL byte not allowed in \\x escape sequence"
  | .printableEscape =>
    "\\x escape sequence can only be used for control characters (ASCII 0x01-0x1f range)"
  | .unexpectedEnd => "unexpected EOF"
  | .strayClose => "closing brace not expected at top level"
  | .nameExpected => "expected start of next field"
  | .contentExpected => "':' or '\x7b' expected to follow field name"
  | .valueExpected => "string expected to follow ':'"
  | .described message => message

/-- A demand of the calling code that a document or a call does not meet. -/
inductive Violation where
  /-- The text of a property that holds an object. -/
  | holdsObject (name : String)
  /-- The object of a property that holds a text. -/
  | holdsText (name : String)
  /-- A text that is no value of the wanted type. -/
  | badValue (name : String) (value : String)
  /-- A text that is none of the wanted names. -/
  | unknownValue (name : String) (value : String)
  /-- An object closed where none is open. -/
  | nothingOpen
  /-- A condition of the caller's own. -/
  | failedCheck (message : String)
  deriving DecidableEq, Repr

def Violation.message : Violation → String
  | .holdsObject name => "property '" ++ name ++ "' has object, not value type"
  | .holdsText name => "property '" ++ name ++ "' has value, not object type"
  | .badValue name value => "invalid value for '" ++ name ++ "': " ++ value
  | .unknownValue name value => "unknown value for '" ++ name ++ "': " ++ value
  | .nothingOpen => "end_subobject called at top level"
  | .failedCheck message => message

/-- A recorded error. -/
inductive Error where
  | malformed (line : Nat) (cause : Malformation)
  | violated (line : Nat) (cause : Violation)
  | outOfMemory (line : Nat)
  /-- A source or a sink failed in the words of `message`. -/
  | transfer (line : Nat) (message : String)
  | conversion (cause : ConversionError)
  deriving DecidableEq, Repr

namespace Error

/-- Where the error was found, if it was found in a document. -/
def line? : Error → Option Nat
  | .malformed line _ | .violated line _ | .outOfMemory line | .transfer line _ => some line
  | .conversion _ => none

/-- What the error says, without its place. -/
def message : Error → String
  | .malformed _ cause => cause.message
  | .violated _ cause => cause.message
  | .outOfMemory _ => "memory allocation failure"
  | .transfer _ message => message
  | .conversion cause => cause.message

/-- The message after its line. -/
def display (e : Error) : String :=
  let text :=
    match e with
    | .transfer _ message => "I/O error: " ++ message
    | other => other.message
  match e.line? with
  | some line => Number.integerText line ++ ": " ++ text
  | none => text

end Error
end PropertyText
