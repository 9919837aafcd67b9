/-
  PropertyText.Cli.Plain

  Text without the control sequences of terminals, for a place where no terminal obeys
  them: sequences are left out, and so are the control characters other than white space.
  A sequence begins with the escape character and has the form that ECMA-48 gives it.  One
  that is never finished takes the rest of the text with it.

  White space may stand within a sequence that is not a string.  It is shown, and so is the
  text behind it; the next control character takes the sequence up where it was left.
-/

namespace PropertyText
namespace Plain

/-- How far a control sequence has been read. -/
inductive Mode where
  /-- Outside of control sequences. -/
  | text
  /-- Behind the escape character. -/
  | escape
  /-- Behind the escape character and intermediate characters. -/
  | intermediate
  /-- In a sequence of parameters that a final character ends. -/
  | parameters
  /-- At the start of a device control string. -/
  | device
  | deviceParameters
  | deviceIntermediate
  /-- In a string that a string terminator ends. -/
  | string
  /-- In a command for the system around the terminal, which a bell ends. -/
  | command
  deriving DecidableEq, Repr

/-- White space among the control characters. -/
def isSpacing (c : Char) : Bool := c == '\t' || c == '\n' || c == '\x0c' || c == '\r'

/-- A character that stands for itself outside of control sequences. -/
def isShown (c : Char) : Bool := (' ' ≤ c && c != '\x7f') || isSpacing c

def isIntermediate (c : Char) : Bool := ' ' ≤ c && c ≤ '/'

def isParameter (c : Char) : Bool := '0' ≤ c && c ≤ '?'

def isFinal (c : Char) : Bool := '@' ≤ c && c ≤ '~'

/-- The string terminator is looked for byte by byte, so that it is also found within the
encoding of another character. -/
def endsString (c : Char) : Bool := (String.utf8EncodeChar c).contains 0x9c

namespace Mode

/-- What the character behind the escape character begins. -/
def ofIntroducer (c : Char) : Mode :=
  if isIntermediate c then .intermediate
  else if c = '[' then .parameters
  else if c = ']' then .command
  else if c = 'P' then .device
  else if c = 'X' || c = '^' || c = '_' then .string
  else if isParameter c || isFinal c then .text
  else .escape

/-- The mode behind a character that neither begins, cancels nor interrupts a sequence. -/
def next : Mode → Char → Mode
  | .text, _ => .text
  | .escape, c => ofIntroducer c
  | .intermediate, c => if isParameter c || isFinal c then .text else .intermediate
  | .parameters, c => if isFinal c then .text else .parameters
  | .device, c =>
    if isIntermediate c then .deviceIntermediate
    else if isParameter c then .deviceParameters
    else if isFinal c then .string
    else .device
  | .deviceParameters, c =>
    if isIntermediate c then .deviceIntermediate
    -- Marks of private parameters come first or not at all.
    else if ('<' ≤ c && c ≤ '?') || isFinal c then .string
    else .deviceParameters
  | .deviceIntermediate, c =>
    if isParameter c || isFinal c then .string else .deviceIntermediate
  | .string, c => if endsString c then .text else .string
  | .command, c => if c = '\x07' then .text else .command

/-- Whether white space within a sequence is shown. -/
def yieldsToSpacing : Mode → Bool
  | .text | .escape | .intermediate | .parameters => true
  | .device | .deviceParameters | .deviceIntermediate | .string | .command => false

end Mode

/-- Where a reader of text is: in a sequence or outside, and whether text interrupts it. -/
structure State where
  mode : Mode
  paused : Bool
  deriving DecidableEq, Repr

namespace State

/-- Outside of control sequences. -/
def start : State := ⟨.text, false⟩

/-- Takes one character, and says whether it is shown. -/
def step (s : State) (c : Char) : State × Bool :=
  if c = '\x1b' then (⟨.escape, false⟩, false)
  -- Two control characters cancel any sequence.
  else if c = '\x18' || c = '\x1a' then (start, false)
  else if s.mode = .text then (start, isShown c)
  else if s.paused then
    -- A character beyond ASCII leaves the sequence for good.
    if c ≤ '\x7f' then (⟨s.mode, isShown c⟩, isShown c) else (start, true)
  else if isSpacing c && s.mode.yieldsToSpacing then (⟨s.mode, true⟩, true)
  else (⟨s.mode.next c, false⟩, false)

/-- What is shown of a text. -/
def shownChars (s : State) : List Char → List Char
  | [] => []
  | c :: rest =>
    let (s, keep) := s.step c
    if keep then c :: shownChars s rest else shownChars s rest

/-- Text that holds nothing but characters that stand for themselves is shown as it is. -/
theorem shownChars_start_of_forall_isShown {text : List Char}
    (h : ∀ c ∈ text, isShown c = true) : start.shownChars text = text := by
  induction text with
  | nil => rfl
  | cons c rest ih =>
    have h_shown : isShown c = true := h c List.mem_cons_self
    have h_rest := ih fun d h_mem => h d (List.mem_cons_of_mem c h_mem)
    -- The characters that begin or cancel a sequence are not shown.
    have h_escape : c ≠ '\x1b' := by rintro rfl; exact absurd h_shown (by decide)
    have h_cancel : c ≠ '\x18' := by rintro rfl; exact absurd h_shown (by decide)
    have h_substitute : c ≠ '\x1a' := by rintro rfl; exact absurd h_shown (by decide)
    have h_step : start.step c = (start, true) := by
      simp [step, start, h_escape, h_cancel, h_substitute, h_shown]
    simp [shownChars, h_step, h_rest]

end State

/-- A text without control sequences. -/
def plain (text : String) : String := String.ofList (State.start.shownChars text.toList)

end Plain
end PropertyText
