/-
  PropertyText.Cli.Similarity

  How alike two words are, for suggesting the option that was meant.  Letters match when
  they are equal and their places are not further apart than half the longer word; the
  measure is the mean of the matching parts of both words and of the part of the matches
  that stands in the same order.
-/

namespace PropertyText
namespace Similarity

/-- Marks the first free letter of a word that equals a letter and lies in a window of
places. -/
def mark? (c : Char) (low high : Nat) (place : Nat) :
    List (Char × Bool) → Option (List (Char × Bool))
  | [] => none
  | (d, taken) :: rest =>
    if low ≤ place && place < high && c == d && !taken then some ((d, true) :: rest)
    else (mark? c low high (place + 1) rest).map ((d, taken) :: ·)

/-- The letters of one word that match, and the other word with the matches marked. -/
def matchUp (reach : Nat) (place : Nat) :
    List Char → List (Char × Bool) → List Char × List (Char × Bool)
  | [], other => ([], other)
  | c :: rest, other =>
    match mark? c (place - reach) (place + reach + 1) 0 other with
    | some marked =>
      let (found, other) := matchUp reach (place + 1) rest marked
      (c :: found, other)
    | none => matchUp reach (place + 1) rest other

/-- The likeness of two words, from zero to one; words without a common letter are not alike
at all.  The parts are added in this order, since each sum is rounded. -/
def likeness (a b : String) : Float :=
  let reach := max a.length b.length / 2 - 1
  let (mine, other) := matchUp reach 0 a.toList (b.toList.map fun c => (c, false))
  let theirs := (other.filter (·.2)).map (·.1)
  let found := mine.length
  let swapped := (mine.zip theirs).countP (fun (c, d) => c != d) / 2
  if found = 0 then 0
  else
    (found.toFloat / a.length.toFloat + found.toFloat / b.length.toFloat +
      (found - swapped).toFloat / found.toFloat) / 3

/-- Words are alike from a likeness of more than seven tenths. -/
def areAlike (a b : String) : Bool := 0.7 < likeness a b

/-- The word that is most like a given one, if any is alike; of equals, the last. -/
def closest? (word : String) (words : List String) : Option String :=
  (words.filter (areAlike word)).foldl (fun best candidate =>
    match best with
    | none => some candidate
    | some other =>
      if likeness word other ≤ likeness word candidate then some candidate else some other) none

end Similarity
end PropertyText
