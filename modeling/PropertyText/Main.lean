/-
  PropertyText.Main

  The command that prints the property tree of a file.
-/
import PropertyText.Cli.Print

open PropertyText

/-- The system's words for a failure, with its number. -/
def failureText (e : IO.Error) : String :=
  let numbered (details : String) (code : UInt32) : String :=
    details ++ " (os error " ++ toString code.toNat ++ ")"
  match e with
  | .noFileOrDirectory _ code details => numbered details code
  | .inappropriateType _ code details => numbered details code
  | .permissionDenied _ code details => numbered details code
  | .invalidArgument _ code details => numbered details code
  | .otherError code details => numbered details code
  | e => toString e

/-- Opens a path and reads what it holds. -/
def openPath (path : String) : IO Cli.Opened := do
  match ← (IO.FS.Handle.mk path .read).toBaseIO with
  | .error e => return .failed (failureText e)
  | .ok handle =>
    match ← handle.readBinToEnd.toBaseIO with
    | .error e => return .file { rest := [], failure := some (failureText e) }
    | .ok bytes => return .file { rest := bytes.toList }

def main (arguments : List String) : IO UInt32 := do
  let request := Cli.Request.ofArguments arguments
  let opened ←
    match request with
    | .print path => openPath path
    | _ => pure (.failed "")
  let outcome := request.outcome fun _ => opened
  IO.print outcome.output
  IO.eprint outcome.complaint
  return UInt32.ofNat outcome.code
