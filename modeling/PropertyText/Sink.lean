/-
  PropertyText.Sink

  Where finished text goes.  A sink takes as much as it likes of what it is given, at
  least one byte if it can go on at all.  The measure `patience` bounds how often in a row
  it can put a writer off, so handing over a text comes to an end.
-/
import PropertyText.Bytes

namespace PropertyText

/-- What a sink does with bytes it is given. -/
inductive Accept where
  /-- The first so many are taken. -/
  | taken (count : Nat)
  /-- Nothing this time; trying again may succeed. -/
  | interrupted (message : String)
  | failed (message : String)
  deriving DecidableEq, Repr

class Sink (σ : Type) where
  write : σ → Bytes → Accept × σ
  /-- Passes on all that was taken; the message says why that failed. -/
  flush : σ → Option String × σ
  /-- A bound on interruptions in a row. -/
  patience : σ → Nat
  patience_of_interrupted {s s' : σ} {bytes : Bytes} {message : String} :
    write s bytes = (.interrupted message, s') → patience s' < patience s

namespace Sink

variable {σ : Type} [Sink σ]

/-- Hands over all bytes, or says why that failed.  A sink that takes nothing at all has
failed. -/
def writeAll (s : σ) (bytes : Bytes) : Option String × σ :=
  match bytes with
  | [] => (none, s)
  | b :: rest =>
    match _h : write s (b :: rest) with
    | (.taken 0, s') => (some "failed to write whole buffer", s')
    | (.taken (n + 1), s') => writeAll s' (rest.drop n)
    | (.interrupted _, s') => writeAll s' (b :: rest)
    | (.failed message, s') => (some message, s')
termination_by (bytes.length, patience s)
decreasing_by
  · apply Prod.Lex.left
    simp only [List.length_drop, List.length_cons]
    omega
  · apply Prod.Lex.right
    exact patience_of_interrupted _h

end Sink

/-- A sink that collects everything. -/
structure Collected where
  bytes : Array UInt8 := #[]
  deriving DecidableEq, Repr

instance : Sink Collected where
  write s bytes := (.taken bytes.length, ⟨s.bytes ++ bytes⟩)
  flush s := (none, s)
  patience _ := 0
  patience_of_interrupted := by
    intro s s' bytes message h
    simp at h

end PropertyText
