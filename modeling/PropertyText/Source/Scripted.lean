/-
  PropertyText.Source.Scripted

  A source that hands over a text in pieces of given sizes, with interruptions, an end
  that comes early and a failure at given places.
-/
import PropertyText.Period
import PropertyText.Source

namespace PropertyText

/-- How a text is handed over. -/
structure Schedule where
  /-- The sizes of the pieces, over and over; without any, as much as is asked for. -/
  pieces : Array Nat := #[]
  /-- Every so many requests one is interrupted; zero stands for never. -/
  interruptEvery : Nat := 0
  /-- The place at which the source fails. -/
  failAt : Option Nat := none
  deriving DecidableEq, Repr

/-- A text with a schedule, part of it handed over. -/
structure ScriptedSource where
  schedule : Schedule
  rest : Bytes
  /-- How many bytes have been handed over. -/
  position : Nat := 0
  /-- The place at which the source answers once that there are no more bytes. -/
  endAt : Option Nat := none
  /-- How many requests have been made. -/
  calls : Nat := 0
  deriving DecidableEq, Repr

namespace ScriptedSource

/-- The distance to a place that lies ahead, or else the given bound. -/
def upTo (bound position : Nat) : Option Nat → Nat
  | some place => if position < place then min bound (place - position) else bound
  | none => bound

/-- How many bytes the next piece may hold. -/
def allowance (s : ScriptedSource) (size : Nat) : Nat :=
  let pieces := s.schedule.pieces
  let piece :=
    if pieces.isEmpty then size else min size (pieces.getD (s.calls % pieces.size) size)
  upTo (upTo piece s.position s.schedule.failAt) s.position s.endAt

/-- Whether the next request is interrupted. -/
def interrupts (s : ScriptedSource) : Bool :=
  fallsOn s.schedule.interruptEvery (s.calls + 1)

/-- Answers a request.  An interruption at every request never ends, so it is a failure. -/
def answer (s : ScriptedSource) (size : Nat) : Fill × ScriptedSource :=
  let counted := { s with calls := s.calls + 1 }
  if s.interrupts then
    (if s.schedule.interruptEvery = 1 then .failed "again" else .interrupted "again", counted)
  else if s.endAt = some s.position then (.bytes [], { counted with endAt := none })
  else if s.schedule.failAt = some s.position then (.failed "connection reset", counted)
  else
    let piece := s.rest.take (s.allowance size)
    (.bytes piece,
      { counted with
        rest := s.rest.drop (s.allowance size)
        position := s.position + piece.length })

/-- Two for each byte, so that an interruption may stand before each, and one for an
interruption that comes next. -/
def bound (s : ScriptedSource) : Nat :=
  2 * s.rest.length + if s.interrupts then 1 else 0

theorem bound_of_bytes {s s' : ScriptedSource} {size : Nat} {bytes : Bytes}
    (h : s.answer size = (.bytes bytes, s')) (h_some : bytes.take size ≠ []) :
    (bytes.take size).length + s'.bound ≤ s.bound := by
  unfold answer at h
  simp only at h
  split at h
  · split at h <;> simp at h
  split at h
  · obtain rfl : ([] : Bytes) = bytes := by simpa using congrArg Prod.fst h
    simp at h_some
  split at h
  · simp at h
  obtain ⟨h_bytes, rfl⟩ := Prod.mk.inj h
  obtain rfl := Fill.bytes.inj h_bytes
  have h_pos : 0 < (((s.rest.take (s.allowance size)).take size)).length :=
    List.length_pos_iff.mpr h_some
  simp only [List.length_take] at h_pos ⊢
  simp only [bound, List.length_drop]
  split <;> omega

theorem bound_of_interrupted {s s' : ScriptedSource} {size : Nat} {message : String}
    (h : s.answer size = (.interrupted message, s')) : s'.bound < s.bound := by
  unfold answer at h
  simp only at h
  split at h
  · rename_i h_int
    split at h
    · simp at h
    · rename_i h_period
      obtain ⟨-, rfl⟩ := Prod.mk.inj h
      simp only [bound, interrupts] at h_int ⊢
      simp [h_int, fallsOn_succ h_int h_period]
  split at h
  · simp at h
  split at h <;> simp at h

instance : Source ScriptedSource where
  fill := answer
  supply := bound
  supply_of_bytes := bound_of_bytes
  supply_of_interrupted := bound_of_interrupted

end ScriptedSource
end PropertyText
