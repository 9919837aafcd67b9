/-
  PropertyText.Writer

  Writing a document one property at a time.  Text is collected and handed to a sink when
  enough has come together.  The first failure is recorded, and from then on nothing more
  is collected or handed over.
-/
import PropertyText.Error
import PropertyText.Event
import PropertyText.Options
import PropertyText.Sink
import PropertyText.Text.Written

namespace PropertyText

structure Writer (σ : Type) where
  sink : σ
  indent : Indent
  /-- How many bytes make the buffer full. -/
  capacity : Nat
  /-- The bytes that the sink has not been given yet. -/
  buffer : Array UInt8 := #[]
  /-- How many objects are open. -/
  level : Nat := 0
  /-- The line that is being written, counted from one. -/
  line : Nat := 1
  error : Option Error := none

namespace Writer

variable {σ : Type}

/-- A writer with a buffer of at least one byte. -/
def ofSink (sink : σ) (options : WriterOptions) : Writer σ :=
  { sink, indent := options.indent, capacity := max options.bufferSize 1 }

/-- The first error stands. -/
def record (w : Writer σ) (e : Error) : Writer σ := { w with error := w.error.or (some e) }

/-- Records that the sink failed, if it did. -/
def recordTransfer (w : Writer σ) : Option String → Writer σ
  | some message => w.record (.transfer w.line message)
  | none => w

/-- The writer on one line, for people who look for faults. -/
def describe (w : Writer σ) : String :=
  "Writer \x7b level: " ++ Number.integerText w.level ++ ", line: " ++ Number.integerText w.line ++
    ", buffered: " ++ Number.integerText w.buffer.size ++ ", .. \x7d"

variable [Sink σ]

/-- Hands the buffer to the sink.  What a failing sink did not take is lost. -/
def drain (w : Writer σ) : Writer σ :=
  if w.error.isSome || w.buffer.isEmpty then w
  else
    let (failure, sink) := Sink.writeAll w.sink w.buffer.toList
    { w with sink, buffer := #[] }.recordTransfer failure

/-- Adds text to the buffer, and hands the buffer over when it is full. -/
def push (w : Writer σ) (text : Bytes) : Writer σ :=
  if w.error.isSome then w
  else
    -- The line counts what has been written, handed over or not.
    let w := { w with line := w.line + newlines text, buffer := w.buffer ++ text }
    if w.capacity ≤ w.buffer.size then w.drain else w

/-- Begins a line. -/
def pushIndent (w : Writer σ) : Writer σ := w.push (w.indent.text w.level)

/-- Writes a property that holds a text. -/
def field (w : Writer σ) (name value : Bytes) : Writer σ :=
  let w := w.pushIndent.push (written name)
  let w := w.push [Ascii.colon, Ascii.space]
  (w.push (written value)).push [Ascii.newline]

/-- Begins a property that holds an object.  What follows stands one level deeper, also
when an error is recorded. -/
def beginObject (w : Writer σ) (name : Bytes) : Writer σ :=
  let w := w.pushIndent.push (written name)
  let w := w.push [Ascii.space, Ascii.openBrace, Ascii.newline]
  { w with level := w.level + 1 }

/-- Ends the innermost object.  There must be one. -/
def endObject (w : Writer σ) : Writer σ :=
  if w.error.isSome then w
  else
    match w.level with
    | 0 => w.record (.violated w.line .nothingOpen)
    | level + 1 => { w with level }.pushIndent.push [Ascii.closeBrace, Ascii.newline]

/-- Writes what an event says. -/
def put (w : Writer σ) : Event Bytes → Writer σ
  | .field name value => w.field name value
  | .opened name => w.beginObject name
  | .closed => w.endObject

def putAll (w : Writer σ) (events : List (Event Bytes)) : Writer σ := events.foldl put w

/-- Hands everything to the sink, which passes it on. -/
def flush (w : Writer σ) : Writer σ :=
  let w := w.drain
  if w.error.isSome then w
  else
    let (failure, sink) := Sink.flush w.sink
    { w with sink }.recordTransfer failure

/-- Ends writing: the sink with everything handed over, or the recorded error. -/
def finish (w : Writer σ) : Except Error σ :=
  let w := w.flush
  match w.error with
  | some e => .error e
  | none => .ok w.sink

end Writer
end PropertyText
