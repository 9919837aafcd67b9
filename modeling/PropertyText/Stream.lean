/-
  PropertyText.Stream

  Reading a document one property at a time.  A stream owns the input; objects are named
  by ids, and any object may be asked for its next property at any time.  The open objects
  form a path, and only the innermost one reads.  An object further out first reads away
  what is left of those inside it, and an object that is no longer on the path has no more
  properties.  Errors are recorded once, and then nothing more is read.
-/
import PropertyText.Options
import PropertyText.ReadAhead
import PropertyText.Token

namespace PropertyText

/-- The name of an object within its stream, by the order in which objects open. -/
abbrev ObjectId := Nat

/-- The object that the whole document is. -/
def rootId : ObjectId := 0

/-- The object of a property that has none; no object of a stream is given this name. -/
def detachedId : ObjectId := UInt64.size - 1

/-- What a property holds. -/
inductive Content where
  | text (value : Bytes)
  | object (id : ObjectId)
  deriving DecidableEq, Repr

structure Property where
  name : Bytes
  content : Content
  deriving DecidableEq, Repr

structure Stream (ι : Type) where
  input : ι
  comments : Bool
  /-- Whether no token has been read yet. -/
  fresh : Bool := true
  /-- The objects that are open, innermost first. -/
  path : List ObjectId := [rootId]
  nextId : ObjectId := rootId + 1
  /-- Whether the document has been read to its end. -/
  finished : Bool := false
  error : Option Error := none

namespace Stream

variable {ι : Type}

def ofInput (input : ι) (comments : Bool) : Stream ι := { input, comments }

/-- A stream that reads ahead in a source. -/
def ofSource {σ : Type} (source : σ) (options : ReaderOptions) : Stream (ReadAhead σ) :=
  ofInput (.ofSource source options.bufferSize) options.comments

/-- The first error stands. -/
def record (s : Stream ι) (e : Error) : Stream ι := { s with error := s.error.or (some e) }

/-- Whether only the document itself is open. -/
def atTop (s : Stream ι) : Bool := s.path.tail.isEmpty

/-- Closes the innermost object. -/
def close (s : Stream ι) : Stream ι := { s with path := s.path.tail }

/-- Opens an object within the innermost one. -/
def openObject (s : Stream ι) : ObjectId × Stream ι :=
  (s.nextId, { s with path := s.nextId :: s.path, nextId := s.nextId + 1 })

/-- The mode in which the next token begins. -/
def mode (s : Stream ι) : Token.Mode := if s.fresh then .fresh else .blank

theorem isBetween_mode (s : Stream ι) : s.mode.IsBetween := by
  unfold mode
  split
  · exact Or.inl rfl
  · exact Or.inr rfl

variable [Input ι]

def line (s : Stream ι) : Nat := Input.line s.input

/-- Records that the text is malformed. -/
def refuse (s : Stream ι) (cause : Malformation) : Stream ι :=
  s.record (.malformed s.line cause)

/-- Records that a demand of the caller is not met. -/
def violate (s : Stream ι) (cause : Violation) : Stream ι :=
  s.record (.violated s.line cause)

/-- Reads a token, unless an error is recorded. -/
def takeToken (s : Stream ι) : Option Token × Stream ι :=
  match s.error with
  | some _ => (none, s)
  | none =>
    match Token.scan s.comments s.mode s.input with
    | (.ok token, input) => (some token, { s with input, fresh := false })
    | (.error fault, input) =>
      -- The refused byte has been stepped over, so its line is the one that counts.
      let s := { s with input, fresh := false }
      (none, s.record (fault.onLine s.line))

/-- Reads what follows the name of a property. -/
def readContent (s : Stream ι) (name : Bytes) : Option Property × Stream ι :=
  match s.takeToken with
  | (some .colon, s) =>
    match s.takeToken with
    | (some (.text value), s) => (some ⟨name, .text value⟩, s)
    -- Where no token could be read, an error is recorded already and stands.
    | (_, s) => (none, s.refuse .valueExpected)
  | (some .openBrace, s) =>
    let (id, s) := s.openObject
    (some ⟨name, .object id⟩, s)
  | (_, s) => (none, s.refuse .contentExpected)

/-- Reads the next property of the innermost object. -/
def readProperty (s : Stream ι) : Option Property × Stream ι :=
  match s.takeToken with
  | (some (.text name), s) => s.readContent name
  | (some .closeBrace, s) => (none, if s.atTop then s.refuse .strayClose else s.close)
  | (some .ended, s) =>
    (none, if s.atTop then { s with finished := true } else s.refuse .unexpectedEnd)
  | (some .colon, s) | (some .openBrace, s) => (none, s.refuse .nameExpected)
  | (none, s) => (none, s)

/-! ## How much of the input each step takes -/

theorem left_takeToken_le (s : Stream ι) :
    Input.left s.takeToken.2.input ≤ Input.left s.input := by
  have h_scan := Token.left_scan_le s.comments s.mode s.input
  unfold takeToken
  split
  · exact Nat.le_refl _
  · split
    · rename_i h
      rwa [h] at h_scan
    · rename_i h
      rwa [h] at h_scan

theorem left_takeToken_lt {s s' : Stream ι} {token : Token} (h : s.takeToken = (some token, s'))
    (h_token : token ≠ .ended) : Input.left s'.input < Input.left s.input := by
  unfold takeToken at h
  split at h
  · simp at h
  · split at h
    · rename_i t input h_scan
      obtain ⟨h_eq, rfl⟩ := Prod.mk.inj h
      obtain rfl := Option.some.inj h_eq
      exact Token.left_scan_lt s.isBetween_mode h_scan h_token
    · simp at h

theorem error_of_takeToken {s s' : Stream ι} (h : s.takeToken = (none, s')) :
    s'.error ≠ none := by
  unfold takeToken at h
  split at h
  · rename_i e h_error
    obtain ⟨-, rfl⟩ := Prod.mk.inj h
    simp [h_error]
  · split at h
    · simp at h
    · obtain ⟨-, rfl⟩ := Prod.mk.inj h
      simp [record]

theorem left_readContent_le (s : Stream ι) (name : Bytes) :
    Input.left (s.readContent name).2.input ≤ Input.left s.input := by
  have h_first := left_takeToken_le s
  unfold readContent
  split
  · rename_i s₁ h
    rw [h] at h_first
    have h_second := left_takeToken_le s₁
    split
    all_goals
      rename_i h_value
      rw [h_value] at h_second
      exact Nat.le_trans h_second h_first
  · rename_i s₁ h
    rw [h] at h_first
    exact h_first
  · rename_i h
    rw [h] at h_first
    exact h_first

theorem left_readProperty_le (s : Stream ι) :
    Input.left s.readProperty.2.input ≤ Input.left s.input := by
  have h_first := left_takeToken_le s
  unfold readProperty
  split <;> rename_i h <;> rw [h] at h_first
  · exact Nat.le_trans (left_readContent_le _ _) h_first
  · split <;> exact h_first
  · split <;> exact h_first
  · exact h_first
  · exact h_first
  · exact h_first

/-- A property takes at least one byte. -/
theorem left_readProperty_lt_of_some {s s' : Stream ι} {p : Property}
    (h : s.readProperty = (some p, s')) : Input.left s'.input < Input.left s.input := by
  unfold readProperty at h
  split at h
  · rename_i name s₁ h_token
    have h_lt := left_takeToken_lt h_token (by simp)
    have h_le := left_readContent_le s₁ name
    rw [h] at h_le
    exact Nat.lt_of_le_of_lt h_le h_lt
  all_goals simp at h

@[simp] theorem path_takeToken (s : Stream ι) : s.takeToken.2.path = s.path := by
  unfold takeToken
  split
  · rfl
  · split <;> rfl

/-- Within an object, a step without an error takes at least one byte. -/
theorem left_readProperty_lt {s : Stream ι} (h_inside : s.atTop = false)
    (h_error : s.readProperty.2.error = none) :
    Input.left s.readProperty.2.input < Input.left s.input := by
  have h_path := path_takeToken s
  unfold readProperty at h_error ⊢
  split at h_error <;> rename_i h_token
  · have h_lt := left_takeToken_lt h_token (by simp)
    exact Nat.lt_of_le_of_lt (left_readContent_le _ _) h_lt
  · have h_lt := left_takeToken_lt h_token (by simp)
    split <;> exact h_lt
  · rw [h_token] at h_path
    rw [atTop, ← h_path] at h_inside
    simp [atTop, h_inside, refuse, record] at h_error
  · simp [refuse, record] at h_error
  · simp [refuse, record] at h_error
  · exact absurd h_error (error_of_takeToken h_token)

/-! ## Reading on in a given object -/

/-- Reads away what is left of the objects inside the given one. -/
def skipTo (id : ObjectId) (s : Stream ι) : Stream ι :=
  match _h_path : s.path with
  -- The document itself has nothing around it that could ask for more.
  | top :: _ :: _ =>
    if top = id then s
    else
      match _h_read : s.readProperty with
      | (_, s') =>
        match _h_error : s'.error with
        | some _ => s'
        | none => skipTo id s'
  | _ => s
termination_by Input.left s.input
decreasing_by
  have := left_readProperty_lt (s := s) (by simp [atTop, _h_path]) (by rw [_h_read]; exact _h_error)
  rwa [_h_read] at this

/-- Reads the next property of an object.  There is none after an error, at the end of the
object, and when the object is not open. -/
def next (s : Stream ι) (id : ObjectId) : Option Property × Stream ι :=
  if s.error.isSome || s.finished || !s.path.contains id then (none, s)
  else
    let s := s.skipTo id
    if s.error.isSome then (none, s) else s.readProperty

theorem left_skipTo_le (id : ObjectId) (s : Stream ι) :
    Input.left (s.skipTo id).input ≤ Input.left s.input := by
  fun_induction skipTo id s with
  | case1 => exact Nat.le_refl _
  | case2 s _ _ _ _ _ _ s' h_read =>
    have := left_readProperty_le s
    rwa [h_read] at this
  | case3 s _ _ _ _ _ _ s' h_read _ ih =>
    have := left_readProperty_le s
    rw [h_read] at this
    exact Nat.le_trans ih this
  | case4 => exact Nat.le_refl _

theorem left_next_le (s : Stream ι) (id : ObjectId) :
    Input.left (s.next id).2.input ≤ Input.left s.input := by
  unfold next
  split
  · exact Nat.le_refl _
  · dsimp only
    split
    · exact left_skipTo_le id s
    · exact Nat.le_trans (left_readProperty_le _) (left_skipTo_le id s)

/-- A property takes at least one byte, skipped objects included. -/
theorem left_next_lt {s s' : Stream ι} {id : ObjectId} {p : Property}
    (h : s.next id = (some p, s')) : Input.left s'.input < Input.left s.input := by
  unfold next at h
  split at h
  · simp at h
  · dsimp only at h
    split at h
    · simp at h
    · exact Nat.lt_of_lt_of_le (left_readProperty_lt_of_some h) (left_skipTo_le id s)

end Stream
end PropertyText
