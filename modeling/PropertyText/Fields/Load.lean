/-
  PropertyText.Fields.Load

  Reading a whole document, or what is left of an object, into a tree.
-/
import PropertyText.Fields
import PropertyText.Stream.Walk

namespace PropertyText

/-- What is left of an object, as far as it can be read. -/
def Stream.readFields {ι : Type} [Input ι] (s : Stream ι) (id : ObjectId) :
    Fields × Stream ι :=
  let (events, s) := s.walk id
  (Fields.ofEvents (events.map Event.decoded), s)

/-- The whole document, unless an error is recorded. -/
def Stream.load {ι : Type} [Input ι] (s : Stream ι) : Except Error Fields × Stream ι :=
  let (fields, s) := s.readFields rootId
  match s.error with
  | some e => (.error e, s)
  | none => (.ok fields, s)

namespace Fields

/-- The document that a source holds. -/
def ofSource {σ : Type} [Source σ] (source : σ) (options : ReaderOptions) :
    Except Error Fields :=
  (Stream.ofSource source options).load.1

/-- The document that a text is. -/
def ofBytes (text : Bytes) (options : ReaderOptions) : Except Error Fields :=
  ofSource ({ rest := text } : Slice) options

end Fields
end PropertyText
