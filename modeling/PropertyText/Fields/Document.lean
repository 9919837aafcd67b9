/-
  PropertyText.Fields.Document

  A tree as the text of a document.
-/
import PropertyText.Fields
import PropertyText.Writer

namespace PropertyText

/-- Writes all properties of a tree at the writer's level. -/
def Writer.putFields {σ : Type} [Sink σ] (w : Writer σ) (f : Fields) : Writer σ :=
  w.putAll (f.toEvents.map Event.encoded)

namespace Fields

/-- The text of a document with a given layout. -/
def document (f : Fields) (options : WriterOptions) : Bytes :=
  ((Writer.ofSink ({} : Collected) options).putFields f).flush.sink.bytes.toList

/-- The text of a document, indented by tabs. -/
def dump (f : Fields) : String := Utf8.decode (f.document {})

end Fields

/-- A text shows as it is, an object as a document. -/
def Value.display : Value → String
  | .text s => s
  | .object f => Fields.dump f

end PropertyText
