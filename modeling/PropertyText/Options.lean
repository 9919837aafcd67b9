/-
  PropertyText.Options

  How a document is read and how it is laid out.
-/
import PropertyText.Bytes

namespace PropertyText

/-- The size of the buffers on either side unless another is chosen. -/
def defaultBufferSize : Nat := 256

structure ReaderOptions where
  /-- How many bytes a source is asked for at once. -/
  bufferSize : Nat := defaultBufferSize
  /-- Whether a text from `//` to the end of its line counts as blank. -/
  comments : Bool := false
  deriving DecidableEq, Repr

/-- A buffer of no bytes is raised to one byte. -/
def ReaderOptions.withBufferSize (options : ReaderOptions) (size : Nat) : ReaderOptions :=
  { options with bufferSize := max size 1 }

def ReaderOptions.withComments (options : ReaderOptions) (comments : Bool) : ReaderOptions :=
  { options with comments }

/-- What stands in front of a line for each object around it. -/
inductive Indent where
  | tab
  | spaces (width : Nat)
  deriving DecidableEq, Repr

namespace Indent

/-- The byte of which an indentation consists. -/
def byte : Indent → UInt8
  | .tab => Ascii.tab
  | .spaces _ => Ascii.space

/-- How many bytes stand for one level. -/
def width : Indent → Nat
  | .tab => 1
  | .spaces n => n

/-- The text in front of a line at a nesting level. -/
def text (indent : Indent) (level : Nat) : Bytes :=
  List.replicate (level * indent.width) indent.byte

end Indent

structure WriterOptions where
  indent : Indent := .tab
  /-- How many bytes are collected before they are handed to the sink. -/
  bufferSize : Nat := defaultBufferSize
  deriving DecidableEq, Repr

def WriterOptions.withIndent (options : WriterOptions) (indent : Indent) : WriterOptions :=
  { options with indent }

/-- A buffer of no bytes is raised to one byte. -/
def WriterOptions.withBufferSize (options : WriterOptions) (size : Nat) : WriterOptions :=
  { options with bufferSize := max size 1 }

end PropertyText
