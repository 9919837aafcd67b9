/-
  PropertyText.Writer.Call

  The requests that can be made of a writer, one after the other.
-/
import PropertyText.Fields.Document

namespace PropertyText
namespace Writer

inductive Call where
  | put (event : Event Bytes)
  | putFields (fields : Fields)
  | flush

/-- The events that a request asks to be written. -/
def Call.events : Call → List (Event Bytes)
  | .put e => [e]
  | .putFields f => f.toEvents.map Event.encoded
  | .flush => []

variable {σ : Type} [Sink σ]

def perform (w : Writer σ) : Call → Writer σ
  | .put e => w.put e
  | .putFields f => w.putFields f
  | .flush => w.flush

/-- Makes requests one after the other. -/
def performAll (w : Writer σ) (calls : List Call) : Writer σ := calls.foldl perform w

@[simp] theorem performAll_nil (w : Writer σ) : w.performAll [] = w := rfl

theorem performAll_append (w : Writer σ) (a b : List Call) :
    w.performAll (a ++ b) = (w.performAll a).performAll b := by
  rw [performAll, List.foldl_append]
  rfl

end Writer
end PropertyText
