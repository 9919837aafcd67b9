/-
  PropertyText.Stream.Walk

  Reading everything below an object, depth first.
-/
import PropertyText.Event
import PropertyText.Stream

namespace PropertyText
namespace Stream

variable {ι : Type} [Input ι]

/-- Walks below the innermost of the given objects, then goes on in those around it.  The
events seen so far stand in reverse. -/
def walkOnto (seen : List (Event Bytes)) (s : Stream ι) (path : List ObjectId) :
    List (Event Bytes) × Stream ι :=
  match path with
  | [] => (seen.reverse, s)
  | id :: outer =>
    match _h : s.next id with
    | (some ⟨name, .text value⟩, s') => walkOnto (.field name value :: seen) s' (id :: outer)
    | (some ⟨name, .object child⟩, s') =>
      walkOnto (.opened name :: seen) s' (child :: id :: outer)
    -- The object that the walk began with is not closed, for it was not entered.
    | (none, s') => walkOnto (if outer.isEmpty then seen else .closed :: seen) s' outer
termination_by 2 * Input.left s.input + path.length
decreasing_by
  · have := left_next_lt _h
    simp only [List.length_cons]
    omega
  · have := left_next_lt _h
    simp only [List.length_cons]
    omega
  · have := left_next_le s id
    simp only [_h] at this
    simp only [List.length_cons]
    omega

/-- The events of what is left of an object.  Each object that was entered is closed, also
when reading fails inside it. -/
def walk (s : Stream ι) (id : ObjectId) : List (Event Bytes) × Stream ι :=
  walkOnto [] s [id]

/-- The next properties of an object, at most as many as given. -/
def take (s : Stream ι) (id : ObjectId) : Nat → List Property × Stream ι
  | 0 => ([], s)
  | n + 1 =>
    match s.next id with
    | (none, s) => ([], s)
    | (some p, s) =>
      let (rest, s) := s.take id n
      (p :: rest, s)

end Stream
end PropertyText
