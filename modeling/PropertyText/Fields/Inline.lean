/-
  PropertyText.Fields.Inline

  A tree on one line, in two notations: as JSON, where names may repeat, and with the kind
  of every part spelled out for people who look for faults.
-/
import PropertyText.Fields
import PropertyText.Text.Shown

namespace PropertyText

/-- A style of writing a tree on one line. -/
structure InlineStyle where
  field : String → String → String
  opened : String → String
  closed : String
  separator : String
  /-- What encloses the properties of the whole tree. -/
  start : String
  finish : String

namespace InlineStyle

/-- Begins a property, behind a separator if another stands before it. -/
def separated (l : InlineStyle) (text : String) (separate : Bool) : String :=
  if separate then text ++ l.separator else text

/-- Adds an event to what is written; the flag says whether a separator comes first. -/
def add (l : InlineStyle) (text : String) (separate : Bool) : Event String → String × Bool
  | .field name value => (l.separated text separate ++ l.field name value, true)
  | .opened name => (l.separated text separate ++ l.opened name, false)
  | .closed => (text ++ l.closed, true)

def render (l : InlineStyle) (f : Fields) : String :=
  let (text, _) :=
    f.toEvents.foldl (fun (text, separate) e => l.add text separate e) (l.start, false)
  text ++ l.finish

end InlineStyle

namespace JsonText

/-- One character of a JSON string. -/
def escapedChar (c : Char) : List Char :=
  if c = '"' then ['\\', '"']
  else if c = '\\' then ['\\', '\\']
  else if c = '\x08' then ['\\', 'b']
  else if c = '\x0c' then ['\\', 'f']
  else if c = '\n' then ['\\', 'n']
  else if c = '\r' then ['\\', 'r']
  else if c = '\t' then ['\\', 't']
  else if c.toNat < 0x20 then
    ['\\', 'u', '0', '0', Nat.digitChar (c.toNat / 16), Nat.digitChar (c.toNat % 16)]
  else [c]

/-- A text as a JSON string. -/
def quote (text : String) : String :=
  String.ofList ('"' :: text.toList.flatMap escapedChar ++ ['"'])

def inline : InlineStyle where
  field name value := quote name ++ ":" ++ quote value
  opened name := quote name ++ ":\x7b"
  closed := "\x7d"
  separator := ","
  start := "\x7b"
  finish := "\x7d"

end JsonText

/-- The notation in which every part says what it is. -/
def explicitInline : InlineStyle where
  field name value := "(" ++ shown name ++ ", String(" ++ shown value ++ "))"
  opened name := "(" ++ shown name ++ ", Object(Fields(["
  closed := "])))"
  separator := ", "
  start := "Fields(["
  finish := "])"

namespace Fields

def json (f : Fields) : String := JsonText.inline.render f

def describe (f : Fields) : String := explicitInline.render f

end Fields

def Value.json : Value → String
  | .text s => JsonText.quote s
  | .object f => Fields.json f

end PropertyText
