/-
  PropertyText.Token

  The tokens of a document, recognised by a machine that takes one byte at a time.  A
  token ends with the byte that completes it, except a bare string, which ends before the
  first byte that cannot belong to it; that byte is looked at and stays unread.
-/
import PropertyText.Error
import PropertyText.Input
import PropertyText.Text.Bare

namespace PropertyText

inductive Token where
  | text (bytes : Bytes)
  | colon
  | openBrace
  | closeBrace
  | ended
  deriving DecidableEq, Repr

namespace Token

/-- Where the machine is within a token.  Text read so far stands in reverse. -/
inductive Mode where
  /-- At the start of the document, where a byte-order mark may stand. -/
  | fresh
  | markSecond
  | markThird
  | blank
  | slash
  | comment
  | bare (read : Bytes)
  | quoted (read : Bytes)
  | escape (read : Bytes)
  | hex (read : Bytes)
  | hexLow (read : Bytes) (high : Nat)
  deriving DecidableEq, Repr

/-- What one byte means in a mode. -/
inductive Verdict where
  | more (mode : Mode)
  /-- The byte completes a token. -/
  | done (token : Token)
  /-- The token ended before the byte. -/
  | before (token : Token)
  | refused (cause : Malformation)
  deriving DecidableEq, Repr

/-- The byte for which an escape of one letter stands. -/
def escapedByte? (letter : UInt8) : Option UInt8 :=
  if letter == 0x6e then some Ascii.newline
  else if letter == 0x74 then some Ascii.tab
  else if letter == 0x72 then some Ascii.carriageReturn
  else if letter == 0x61 then some Ascii.bell
  else if letter == 0x62 then some Ascii.backspace
  else if letter == Ascii.backslash then some Ascii.backslash
  else if letter == Ascii.quote then some Ascii.quote
  else none

namespace Mode

/-- Between tokens, a byte is blank or begins the next token. -/
def begin (comments : Bool) (b : UInt8) : Verdict :=
  if Ascii.isBlank b then .more .blank
  else if comments && b == Ascii.slash then .more .slash
  else if b == Ascii.colon then .done .colon
  else if b == Ascii.openBrace then .done .openBrace
  else if b == Ascii.closeBrace then .done .closeBrace
  else if b == Ascii.quote then .more (.quoted [])
  else if isBareByte b then .more (.bare [b])
  else .refused .strayByte

/-- The letter after a backslash. -/
def afterBackslash (read : Bytes) (b : UInt8) : Verdict :=
  match escapedByte? b with
  | some c => .more (.quoted (c :: read))
  | none => if b == 0x78 then .more (.hex read) else .refused (.unknownEscape b)

/-- A hexadecimal escape may stand for a control byte other than zero. -/
def ofHex (read : Bytes) (value : Nat) : Verdict :=
  if value == 0 then .refused .zeroEscape
  else if value < 0x20 then .more (.quoted (UInt8.ofNat value :: read))
  else .refused .printableEscape

/-- Takes one byte. -/
def step (comments : Bool) (mode : Mode) (b : UInt8) : Verdict :=
  match mode with
  | .fresh => if b == 0xef then .more .markSecond else begin comments b
  | .markSecond => if b == 0xbb then .more .markThird else .refused .brokenMark
  | .markThird => if b == 0xbf then .more .blank else .refused .brokenMark
  | .blank => begin comments b
  | .slash => if b == Ascii.slash then .more .comment else .refused .loneSlash
  -- The newline that ends a comment is blank itself.
  | .comment => if b == Ascii.newline then .more .blank else .more .comment
  | .bare read => if isBareByte b then .more (.bare (b :: read)) else .before (.text read.reverse)
  | .quoted read =>
    if b == Ascii.quote then .done (.text read.reverse)
    else if b == Ascii.backslash then .more (.escape read)
    else .more (.quoted (b :: read))
  | .escape read => afterBackslash read b
  | .hex read =>
    match Ascii.hexValue? b with
    | some high => .more (.hexLow read high)
    | none => .refused .badHex
  | .hexLow read high =>
    match Ascii.hexValue? b with
    | some low => ofHex read (16 * high + low)
    | none => .refused .badHex

/-- What the end of the text means. -/
def finish : Mode → Except Malformation Token
  | .fresh | .blank | .comment => .ok .ended
  | .markSecond | .markThird => .error .brokenMark
  | .slash => .error .loneSlash
  -- A bare string may be the last thing in a document.
  | .bare read => .ok (.text read.reverse)
  | .quoted _ | .escape _ | .hex _ | .hexLow _ _ => .error .unexpectedEnd

/-- The modes in which no token has begun. -/
def IsBetween (mode : Mode) : Prop := mode = .fresh ∨ mode = .blank

end Mode

/-- Why there is no token. -/
inductive Fault where
  | malformed (cause : Malformation)
  /-- The text could not be fetched. -/
  | failed (message : String)
  deriving DecidableEq, Repr

/-- The error that a fault is, found on a line. -/
def Fault.onLine (line : Nat) : Fault → Error
  | .malformed cause => .malformed line cause
  | .failed message => .transfer line message

variable {ι : Type} [Input ι]

/-- Reads the rest of a token.  A byte that is refused has been stepped over. -/
def scan (comments : Bool) (mode : Mode) (i : ι) : Except Fault Token × ι :=
  match _h : Input.peek i with
  | (.ended, i') => (mode.finish.mapError .malformed, i')
  | (.failed message, i') => (.error (.failed message), i')
  | (.byte b, i') =>
    match mode.step comments b with
    | .more next => scan comments next (Input.advance i')
    | .done token => (.ok token, Input.advance i')
    | .before token => (.ok token, i')
    | .refused cause => (.error (.malformed cause), Input.advance i')
termination_by Input.left i
decreasing_by exact Input.left_advance_lt _h

/-! ## How much of the input a token takes -/

theorem left_scan_le (comments : Bool) (mode : Mode) (i : ι) :
    Input.left (scan comments mode i).2 ≤ Input.left i := by
  fun_induction scan comments mode i with
  | case1 mode i i' h => exact Input.left_of_peek h
  | case2 mode i m i' h => exact Input.left_of_peek h
  | case3 mode i b i' h next h_step ih =>
    exact Nat.le_trans ih (Nat.le_of_lt (Input.left_advance_lt h))
  | case4 mode i b i' h token h_step => exact Nat.le_of_lt (Input.left_advance_lt h)
  | case5 mode i b i' h token h_step => exact Input.left_of_peek h
  | case6 mode i b i' h cause h_step => exact Nat.le_of_lt (Input.left_advance_lt h)

theorem Mode.step_ne_before {comments : Bool} {mode : Mode} (h : mode.IsBetween) (b : UInt8)
    (token : Token) : mode.step comments b ≠ .before token := by
  have h_begin : Mode.begin comments b ≠ .before token := by
    unfold Mode.begin
    repeat' split
    all_goals simp
  rcases h with rfl | rfl
  · unfold Mode.step
    dsimp only
    split
    · simp
    · exact h_begin
  · exact h_begin

theorem Mode.finish_of_isBetween {mode : Mode} (h : mode.IsBetween) :
    mode.finish = .ok .ended := by
  rcases h with rfl | rfl <;> rfl

/-- A token other than the end of the text takes at least one byte. -/
theorem left_scan_lt {comments : Bool} {mode : Mode} (h_between : mode.IsBetween) {i i' : ι}
    {token : Token} (h : scan comments mode i = (.ok token, i')) (h_token : token ≠ .ended) :
    Input.left i' < Input.left i := by
  unfold scan at h
  split at h
  · rw [Mode.finish_of_isBetween h_between] at h
    obtain ⟨h_ended, -⟩ := Prod.mk.inj h
    exact absurd (Except.ok.inj h_ended).symm h_token
  · simp at h
  · rename_i b i₁ h_look
    have h_lt := Input.left_advance_lt h_look
    split at h
    · rename_i next h_step
      have := left_scan_le comments next (Input.advance i₁)
      rw [h] at this
      exact Nat.lt_of_le_of_lt this h_lt
    · obtain ⟨-, rfl⟩ := Prod.mk.inj h
      exact h_lt
    · rename_i t h_step
      exact absurd h_step (Mode.step_ne_before h_between b t)
    · simp at h

end Token
end PropertyText
