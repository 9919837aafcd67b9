/-
  PropertyText.Cli.Print

  The command: what it prints for a request, given what opening a path gives.  Properties
  are printed as far as the document can be read, also when it turns out to be malformed.
-/
import PropertyText.Cli.Arguments
import PropertyText.Stream.Walk

namespace PropertyText
namespace Cli

/-- What comes of opening a path. -/
inductive Opened where
  | file (text : Slice)
  | failed (message : String)
  deriving DecidableEq, Repr

/-- What a run of the command leaves behind. -/
structure Outcome where
  code : Nat
  output : String
  complaint : String
  deriving DecidableEq, Repr

/-- How far a line is moved in for each object around it. -/
def indentWidth : Nat := 4

def indentation (depth : Nat) : String := String.ofList (List.replicate (indentWidth * depth) ' ')

/-- Adds the line of an event, and follows the depth. -/
def addLine (printed : String × Nat) : Event String → String × Nat
  | .field name value =>
    (printed.1 ++ indentation printed.2 ++ name ++ " = \"" ++ value ++ "\"\n", printed.2)
  | .opened name => (printed.1 ++ indentation printed.2 ++ name ++ ":\n", printed.2 + 1)
  | .closed => (printed.1, printed.2 - 1)

/-- One line for each property. -/
def listing (events : List (Event Bytes)) : String :=
  ((events.map Event.decoded).foldl addLine ("", 0)).1

/-- Prints a document. -/
def print (text : Slice) : Outcome :=
  let (events, s) := (Stream.ofSource text {}).walk rootId
  match s.error with
  | none => ⟨0, listing events, ""⟩
  | some e => ⟨1, listing events, e.display ++ "\n"⟩

/-- What is left behind by a request, where `look` opens a path. -/
def Request.outcome (look : String → Opened) : Request → Outcome
  | .help => ⟨0, helpText, ""⟩
  | .version => ⟨0, versionText, ""⟩
  | .refused message => ⟨1, "", message⟩
  | .print path =>
    match look path with
    | .file text => Cli.print text
    | .failed message => ⟨1, "", "Error opening " ++ path ++ ": " ++ message ++ "\n"⟩

end Cli
end PropertyText
