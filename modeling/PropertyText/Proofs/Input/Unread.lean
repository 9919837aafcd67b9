/-
  PropertyText.Proofs.Input.Unread

  The plainest input: a list of the bytes that have not been read yet, with what stands
  behind them.  Every other input is shown as one of these, so what a reader does is
  proved here once, byte by byte.
-/
import PropertyText.Proofs.Input.View

namespace PropertyText

/-- The bytes still to be read, and the message of the failure that stands behind them if
they do not simply end. -/
structure Unread where
  bytes : Bytes
  failure : Option String := none
  line : Nat := 1
  deriving DecidableEq, Repr

namespace Unread

/-- Looks at the first byte.  A failure is told once; from then on the text has ended. -/
def peek (u : Unread) : Look × Unread :=
  match u.bytes, u.failure with
  | b :: _, _ => (.byte b, u)
  | [], some message => (.failed message, { u with failure := none })
  | [], none => (.ended, u)

def advance (u : Unread) : Unread :=
  match u.bytes with
  | b :: rest => { u with bytes := rest, line := u.line + newlines [b] }
  | [] => u

instance : Input Unread where
  peek := peek
  advance := advance
  line := line
  left u := u.bytes.length
  left_peek u := by
    unfold peek
    split <;> exact Nat.le_refl _
  left_advance := by
    rintro ⟨bytes, failure, line⟩ u' b h
    cases bytes with
    | nil => cases failure <;> simp [peek] at h
    | cons c rest =>
      obtain ⟨-, rfl⟩ := Prod.mk.inj h
      simp [advance]

variable {b : UInt8} {rest : Bytes} {failure : Option String} {line : Nat}

@[simp] theorem input_line (u : Unread) : Input.line u = u.line := rfl

theorem peek_cons : Input.peek (⟨b :: rest, failure, line⟩ : Unread) =
    (.byte b, ⟨b :: rest, failure, line⟩) := rfl

theorem peek_nil : Input.peek (⟨[], none, line⟩ : Unread) = (.ended, ⟨[], none, line⟩) := rfl

theorem peek_failed {message : String} : Input.peek (⟨[], some message, line⟩ : Unread) =
    (.failed message, ⟨[], none, line⟩) := rfl

theorem advance_cons : Input.advance (⟨b :: rest, failure, line⟩ : Unread) =
    ⟨rest, failure, line + newlines [b]⟩ := rfl

/-- A byte is seen where it stands first, and looking changes nothing. -/
theorem exists_of_peek {u u' : Unread} (h : Input.peek u = (.byte b, u')) :
    ∃ rest failure line, u = ⟨b :: rest, failure, line⟩ ∧ u' = u := by
  obtain ⟨bytes, failure, line⟩ := u
  cases bytes with
  | nil => cases failure <;> cases h
  | cons c rest =>
    obtain ⟨h_byte, rfl⟩ := Prod.mk.inj h
    obtain rfl := Look.byte.inj h_byte
    exact ⟨rest, failure, line, rfl, rfl⟩

end Unread

/-! ## Tokens, byte by byte -/

namespace Token

variable {comments : Bool} {mode : Mode} {b : UInt8} {rest : Bytes} {failure : Option String}
  {line : Nat}

theorem scan_nil :
    scan comments mode (⟨[], none, line⟩ : Unread) =
      (mode.finish.mapError .malformed, ⟨[], none, line⟩) :=
  scan_of_ended Unread.peek_nil

theorem scan_failed {message : String} :
    scan comments mode (⟨[], some message, line⟩ : Unread) =
      (.error (.failed message), ⟨[], none, line⟩) :=
  scan_of_failed Unread.peek_failed

theorem scan_more {next : Mode} (h : mode.step comments b = .more next) :
    scan comments mode (⟨b :: rest, failure, line⟩ : Unread) =
      scan comments next ⟨rest, failure, line + newlines [b]⟩ := by
  rw [scan_of_byte Unread.peek_cons, h, Unread.advance_cons]

theorem scan_done {token : Token} (h : mode.step comments b = .done token) :
    scan comments mode (⟨b :: rest, failure, line⟩ : Unread) =
      (.ok token, ⟨rest, failure, line + newlines [b]⟩) := by
  rw [scan_of_byte Unread.peek_cons, h, Unread.advance_cons]

theorem scan_before {token : Token} (h : mode.step comments b = .before token) :
    scan comments mode (⟨b :: rest, failure, line⟩ : Unread) =
      (.ok token, ⟨b :: rest, failure, line⟩) := by
  rw [scan_of_byte Unread.peek_cons, h]

theorem scan_refused {cause : Malformation} (h : mode.step comments b = .refused cause) :
    scan comments mode (⟨b :: rest, failure, line⟩ : Unread) =
      (.error (.malformed cause), ⟨rest, failure, line + newlines [b]⟩) := by
  rw [scan_of_byte Unread.peek_cons, h, Unread.advance_cons]

end Token
end PropertyText
