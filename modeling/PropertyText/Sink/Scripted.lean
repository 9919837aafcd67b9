/-
  PropertyText.Sink.Scripted

  A sink with limited room that takes its text in small pieces, with interruptions and
  failures at given places.
-/
import PropertyText.Period
import PropertyText.Sink

namespace PropertyText

/-- How a sink behaves. -/
structure Behaviour where
  /-- How many bytes there is room for. -/
  limit : Option Nat := none
  /-- The most that is taken at once; zero stands for no bound. -/
  maxWrite : Nat := 0
  /-- Every so many writes one is interrupted; zero stands for never. -/
  interruptEvery : Nat := 0
  /-- Whether too much text is taken in part instead of being refused. -/
  cutsShort : Bool := false
  /-- Whether flushing fails. -/
  failsToFlush : Bool := false
  deriving DecidableEq, Repr

/-- A sink with a behaviour, with what it holds. -/
structure ScriptedSink where
  behaviour : Behaviour := {}
  held : Array UInt8 := #[]
  writes : Nat := 0
  flushes : Nat := 0
  deriving DecidableEq, Repr

namespace ScriptedSink

/-- Whether the next write is interrupted. -/
def interrupts (s : ScriptedSink) : Bool := fallsOn s.behaviour.interruptEvery (s.writes + 1)

/-- How many of so many bytes are taken, if they are not refused. -/
def room? (s : ScriptedSink) (length : Nat) : Option Nat :=
  let wanted := if s.behaviour.maxWrite = 0 then length else min length s.behaviour.maxWrite
  match s.behaviour.limit with
  | none => some wanted
  | some limit =>
    if s.held.size + wanted ≤ limit then some wanted
    else if s.behaviour.cutsShort then some (limit - s.held.size)
    else none

/-- Takes bytes.  An interruption at every write never ends, so it is a failure. -/
def write (s : ScriptedSink) (bytes : Bytes) : Accept × ScriptedSink :=
  let counted := { s with writes := s.writes + 1 }
  if s.interrupts then
    (if s.behaviour.interruptEvery = 1 then .failed "again" else .interrupted "again", counted)
  else
    match s.room? bytes.length with
    | none => (.failed "disk full", counted)
    | some count => (.taken count, { counted with held := s.held ++ bytes.take count })

def flush (s : ScriptedSink) : Option String × ScriptedSink :=
  (if s.behaviour.failsToFlush then some "flush failed" else none,
    { s with flushes := s.flushes + 1 })

/-- No two writes in a row are interrupted. -/
theorem interrupts_of_interrupted {s s' : ScriptedSink} {bytes : Bytes} {message : String}
    (h : s.write bytes = (.interrupted message, s')) :
    s.interrupts = true ∧ s'.interrupts = false := by
  unfold write at h
  dsimp only at h
  split at h
  · rename_i h_int
    split at h
    · simp at h
    · rename_i h_period
      obtain ⟨-, rfl⟩ := Prod.mk.inj h
      exact ⟨h_int, fallsOn_succ h_int h_period⟩
  · split at h <;> simp at h

instance : Sink ScriptedSink where
  write := write
  flush := flush
  patience s := if s.interrupts then 1 else 0
  patience_of_interrupted := by
    intro s s' bytes message h
    obtain ⟨h_before, h_behind⟩ := interrupts_of_interrupted h
    simp [h_before, h_behind]

end ScriptedSink
end PropertyText
