/-
  PropertyText.Cli.Arguments

  What the arguments of the command ask for, and what is said about arguments that cannot
  be understood.  The command takes one path and the two options `--help` and `--version`,
  each of which ends the reading of arguments at once.  Arguments are repeated in refusals
  without control sequences.
-/
import PropertyText.Cli.Plain
import PropertyText.Cli.Similarity

namespace PropertyText
namespace Cli

/-- What a command line asks for. -/
inductive Request where
  | help
  | version
  | print (path : String)
  /-- A command line that cannot be understood, with what is said about it. -/
  | refused (message : String)
  deriving DecidableEq, Repr

def programName : String := "yocton-print"

def versionText : String := programName ++ " 0.1.0\n"

/-- The form of a command line, with an option that was given or meant. -/
def usage (option : String) : String := "Usage: " ++ programName ++ " " ++ option ++ "<PATH>\n"

def helpText : String :=
  "Print the property tree of a Yocton file\n\n" ++ usage "" ++
    "\nArguments:\n  <PATH>  File to read\n\nOptions:\n  -h, --help     Print help\n" ++
    "  -V, --version  Print version\n"

/-- What every refusal ends with. -/
def hint : String := "\nFor more information, try '--help'.\n"

/-- The names of the long options. -/
def longOptions : List String := ["help", "version"]

namespace Request

/-- A refusal, with the form that the command line should have had. -/
def refusedWith (problem option : String) : Request :=
  .refused ("error: " ++ problem ++ "\n\n" ++ usage option ++ hint)

def missingPath : Request :=
  refusedWith "the following required arguments were not provided:\n  <PATH>" ""

def emptyPath : Request :=
  .refused ("error: a value is required for '<PATH>' but none was supplied\n" ++ hint)

/-- Words of the command line within a refusal. -/
def quoted (words : String) : String := "'" ++ Plain.plain words ++ "'"

/-- The problem that an argument is not known. -/
def unexpected (argument : String) : String :=
  "unexpected argument " ++ quoted argument ++ " found"

/-- A path beyond the only one. -/
def extraPath (argument : String) : Request := refusedWith (unexpected argument) ""

/-- An option that is not known, which may have been meant as a path. -/
def unknownOption (option : String) : Request :=
  refusedWith (unexpected option ++ "\n\n  tip: to pass " ++ quoted option ++
    " as a value, use " ++ quoted ("-- " ++ option)) ""

/-- A long option that is not known, which may have been misspelled. -/
def unknownLong (name : String) : Request :=
  match Similarity.closest? name longOptions with
  | some meant =>
    refusedWith
      (unexpected ("--" ++ name) ++ "\n\n  tip: a similar argument exists: '--" ++ meant ++ "'")
      ("--" ++ meant ++ " ")
  | none => unknownOption ("--" ++ name)

/-- A value for an option that takes none. -/
def unexpectedValue (name value : String) : Request :=
  refusedWith ("unexpected value " ++ quoted value ++ " for '--" ++ name ++
    "' found; no more were expected") ("--" ++ name ++ " ")

/-- The request for the only path, once it is known that nothing else is asked for. -/
def ofPath : Option String → Request
  | none => missingPath
  | some path => if path.isEmpty then emptyPath else .print path

/-- The request of an option behind a path, which must not be empty. -/
def behind (path : Option String) (request : Request) : Request :=
  if path = some "" then emptyPath else request

end Request

/-- A long option, its dashes left out. -/
def longOption (path : Option String) (text : List Char) : Request :=
  let name := String.ofList (text.takeWhile (· != '='))
  let value := text.dropWhile (· != '=')
  if longOptions.contains name then
    match value with
    | _ :: value => .unexpectedValue name (String.ofList value)
    | [] => .behind path (if name = "help" then .help else .version)
  else .unknownLong name

/-- Short options in one argument: the first one decides. -/
def shortOption (path : Option String) (letter : Char) : Request :=
  if letter = 'h' then .behind path .help
  else if letter = 'V' then .behind path .version
  else .unknownOption ("-" ++ String.singleton letter)

/-- Reads paths only. -/
def readPaths (path : Option String) : List String → Request
  | [] => .ofPath path
  | argument :: rest =>
    match path with
    | none => readPaths (some argument) rest
    | some _ => .extraPath argument

/-- Reads arguments behind a path that was given before, if any was. -/
def readArguments (path : Option String) : List String → Request
  | [] => .ofPath path
  | argument :: rest =>
    match argument.toList with
    | ['-', '-'] => readPaths path rest
    | '-' :: '-' :: text => longOption path text
    | '-' :: letter :: _ => shortOption path letter
    -- A dash alone is a path like any other.
    | _ =>
      match path with
      | none => readArguments (some argument) rest
      | some _ => .extraPath argument

/-- What the arguments ask for. -/
def Request.ofArguments (arguments : List String) : Request := readArguments none arguments

end Cli
end PropertyText
