/-
  PropertyText.Input

  What a reader of tokens needs of the text it reads: to look at the next byte, to step
  over it, and to know the line it is on.  Looking may have to fetch more text, so it
  gives the input back as well.
-/
import PropertyText.Bytes

namespace PropertyText

/-- What stands next in an input. -/
inductive Look where
  | byte (byte : UInt8)
  | ended
  | failed (message : String)
  deriving DecidableEq, Repr

class Input (ι : Type) where
  /-- Looks at the next byte. -/
  peek : ι → Look × ι
  /-- Steps over the byte that was looked at. -/
  advance : ι → ι
  /-- The line of the next byte, counted from one. -/
  line : ι → Nat
  /-- A bound on the bytes still to come. -/
  left : ι → Nat
  left_peek (i : ι) : left (peek i).2 ≤ left i
  left_advance {i i' : ι} {b : UInt8} : peek i = (.byte b, i') → left (advance i') < left i'

namespace Input

variable {ι : Type} [Input ι]

theorem left_of_peek {i i' : ι} {look : Look} (h : peek i = (look, i')) : left i' ≤ left i := by
  have := left_peek i
  rwa [h] at this

/-- Stepping over a byte that was looked at leaves fewer bytes. -/
theorem left_advance_lt {i i' : ι} {b : UInt8} (h : peek i = (.byte b, i')) :
    left (advance i') < left i :=
  Nat.lt_of_lt_of_le (left_advance h) (left_of_peek h)

end Input
end PropertyText
