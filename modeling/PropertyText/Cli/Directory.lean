/-
  PropertyText.Cli.Directory

  A directory with files and directories in it, and what opening a path from there gives.
  Of what lies outside, only that is known which every system has: the directories around,
  the root, the directories for devices and for passing files, and the empty device.
-/
import PropertyText.Cli.Print

namespace PropertyText
namespace Cli

/-- A place, as the names on the way to it.  Places outside begin with `..`, or with `/` if
their way begins at the root. -/
abbrev Place := List String

structure Directory where
  files : List (Place × Bytes)
  directories : List Place

namespace Directory

/-- Why a path cannot be opened. -/
inductive Refusal where
  | missing
  | notDirectory
  | nameTooLong
  deriving DecidableEq, Repr

def Refusal.message : Refusal → String
  | .missing => "No such file or directory (os error 2)"
  | .notDirectory => "Not a directory (os error 20)"
  | .nameTooLong => "File name too long (os error 36)"

/-- What reading a directory as a file comes to. -/
def readingFailure : String := "Is a directory (os error 21)"

/-- The longest name and the longest path, in bytes. -/
def nameLimit : Nat := 255

def pathLimit : Nat := 4095

def root : Place := ["/"]

/-- The directories that every system has. -/
def standardDirectories : List Place := [root, root ++ ["dev"], root ++ ["tmp"]]

/-- The device that holds nothing. -/
def emptyDevice : Place := root ++ ["dev", "null"]

/-- Whether a place is a directory: one that was named, one on the way to something that
was named, or one outside. -/
def isDirectory (d : Directory) (place : Place) : Bool :=
  place.all (· == "..") || standardDirectories.contains place ||
    d.directories.any (place.isPrefixOf ·) ||
    d.files.any fun (file, _) => place.length < file.length && place.isPrefixOf file

/-- What the file at a place holds. -/
def contents? (d : Directory) (place : Place) : Option Bytes :=
  if place = emptyDevice then some [] else d.files.lookup place

/-- The place around a place; the root is its own. -/
def around (place : Place) : Place :=
  if place.all (· == "..") then place ++ [".."]
  else if place = root then root
  else place.dropLast

/-- Follows the names of a path. -/
def follow (d : Directory) (place : Place) : List String → Except Refusal Place
  | [] => .ok place
  | name :: rest =>
    if !d.isDirectory place then
      .error (if (d.contents? place).isSome then .notDirectory else .missing)
    else if nameLimit < name.utf8ByteSize then .error .nameTooLong
    else if name = "" || name = "." then follow d place rest
    else if name = ".." then follow d (around place) rest
    else follow d (place ++ [name]) rest

/-- The place that a path names. -/
def resolve (d : Directory) (path : String) : Except Refusal Place :=
  if pathLimit < path.utf8ByteSize then .error .nameTooLong
  else
    let names := path.splitOn "/"
    follow d (if path.startsWith "/" then root else []) names

/-- Opens a path.  A directory can be opened, but not read. -/
def look (d : Directory) (path : String) : Opened :=
  match d.resolve path with
  | .error refusal => .failed refusal.message
  | .ok place =>
    if d.isDirectory place then .file { rest := [], failure := some readingFailure }
    else
      match d.contents? place with
      | some bytes => .file { rest := bytes }
      | none => .failed Refusal.missing.message

end Directory
end Cli
end PropertyText
