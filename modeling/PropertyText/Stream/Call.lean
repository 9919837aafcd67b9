/-
  PropertyText.Stream.Call

  The requests that can be made of a stream, with the answer and the stream that each
  leaves behind.
-/
import PropertyText.Fields.Load
import PropertyText.Stream.Property

namespace PropertyText
namespace Stream

inductive Call where
  | next (object : ObjectId)
  | take (object : ObjectId) (count : Nat)
  | walk (object : ObjectId)
  | readFields (object : ObjectId)
  | load
  | value (p : Property)
  | inner (p : Property)
  | parse (p : Property) (type : ScalarType)
  | choose (p : Property) (names : List String)
  | check (message : String) (condition : Bool)
  deriving DecidableEq, Repr

inductive Answer where
  | property (p : Option Property)
  | properties (ps : List Property)
  | events (events : List (Event Bytes))
  | fields (fields : Fields)
  | loaded (result : Except Error Fields)
  | text (text : Bytes)
  | object (id : ObjectId)
  | scalar (scalar : Scalar)
  | place (place : Option Nat)
  | truth (truth : Bool)

variable {ι : Type} [Input ι]

def perform (s : Stream ι) : Call → Answer × Stream ι
  | .next object => (s.next object).map .property id
  | .take object count => (s.take object count).map .properties id
  | .walk object => (s.walk object).map .events id
  | .readFields object => (s.readFields object).map .fields id
  | .load => s.load.map .loaded id
  | .value p => (s.value p).map .text id
  | .inner p => (s.inner p).map .object id
  | .parse p type => (s.parse p type).map .scalar id
  | .choose p names => (s.choose p names).map .place id
  | .check message condition => (.truth condition, s.check message condition)

/-- Makes requests one after the other. -/
def performAll (s : Stream ι) : List Call → List Answer × Stream ι
  | [] => ([], s)
  | call :: calls =>
    let (answer, s) := s.perform call
    let (answers, s) := s.performAll calls
    (answer :: answers, s)

end Stream
end PropertyText
