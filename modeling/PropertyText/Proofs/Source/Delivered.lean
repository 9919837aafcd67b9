/-
  PropertyText.Proofs.Source.Delivered

  What a source delivers, piece by piece, and the same as one list.  Read-ahead shows a
  source as that list (`ReadAhead.view_unread`): into how many pieces a source cuts its
  text, and how large the window is, makes no difference behind it.
-/
import PropertyText.Proofs.Input.Unread
import PropertyText.Proofs.Stream.View

namespace PropertyText
namespace Source

variable {σ : Type} [Source σ]

/-- The bytes that a source delivers until it hands over none or fails, when it is asked
for `size` bytes each time, and the message if it fails.  An interruption counts as a
failure here. -/
def delivered (s : σ) (size : Nat) : Bytes × Option String :=
  match _h : fill s size with
  | (.bytes bytes, s') =>
    if _h_none : bytes.take size = [] then ([], none)
    else (delivered s' size).map (bytes.take size ++ ·) id
  | (.interrupted message, _) | (.failed message, _) => ([], some message)
termination_by supply s
decreasing_by
  have := supply_of_bytes _h _h_none
  have := List.length_pos_iff.mpr _h_none
  omega

/-! ### One request at a time -/

section

variable {s s' : σ} {size : Nat} {bytes : Bytes} {message : String}

theorem delivered_of_none (h : fill s size = (.bytes bytes, s')) (h_none : bytes.take size = []) :
    delivered s size = ([], none) := by
  rw [delivered]
  split <;> simp_all

theorem delivered_of_bytes (h : fill s size = (.bytes bytes, s')) (h_some : bytes.take size ≠ []) :
    delivered s size = (delivered s' size).map (bytes.take size ++ ·) id := by
  rw [delivered]
  split <;> simp_all

theorem delivered_of_interrupted (h : fill s size = (.interrupted message, s')) :
    delivered s size = ([], some message) := by
  rw [delivered]
  split <;> simp_all

theorem delivered_of_failed (h : fill s size = (.failed message, s')) :
    delivered s size = ([], some message) := by
  rw [delivered]
  split <;> simp_all

end

end Source

/-! ## Read-ahead as unread bytes -/

namespace ReadAhead

variable {σ : Type}

theorem drop_window {r : ReadAhead σ} {b : UInt8} (h : r.window[r.position]? = some b) :
    r.window.toList.drop r.position = b :: r.window.toList.drop (r.position + 1) := by
  obtain ⟨h_lt, h_byte⟩ := Array.getElem?_eq_some_iff.mp h
  rw [List.drop_eq_getElem_cons (by simpa using h_lt)]
  simp [h_byte]

theorem drop_window_nil {r : ReadAhead σ} (h : r.window[r.position]? = none) :
    r.window.toList.drop r.position = [] := by
  have h_le := Array.getElem?_eq_none_iff.mp h
  rw [List.drop_eq_nil_iff]
  simpa using h_le

variable [Source σ]

/-- What the source is still asked for. -/
def toCome (r : ReadAhead σ) : Bytes × Option String :=
  if r.exhausted then ([], none) else Source.delivered r.source r.capacity

/-- What is still to be read: the rest of the window, then what the source delivers. -/
def unread (r : ReadAhead σ) : Unread where
  bytes := r.window.toList.drop r.position ++ r.toCome.1
  failure := r.toCome.2
  line := r.line

/-- A window that is used up shows what a new request brings. -/
theorem unread_refill {r : ReadAhead σ} (h : r.window[r.position]? = none)
    (h_more : r.exhausted = false) : Unread.peek r.unread = r.refill.map id unread := by
  have h_drop := drop_window_nil h
  unfold refill
  split
  · rename_i bytes source h_fill
    cases h_take : bytes.take r.capacity with
    | nil =>
      simp [Unread.peek, unread, toCome, h_drop, h_more, Source.delivered_of_none h_fill h_take]
    | cons b rest =>
      have h_some : bytes.take r.capacity ≠ [] := by simp [h_take]
      simp [Unread.peek, unread, toCome, h_drop, h_more, Source.delivered_of_bytes h_fill h_some,
        h_take]
  · rename_i message source h_fill
    simp [Unread.peek, unread, toCome, h_drop, h_more, Source.delivered_of_interrupted h_fill]
  · rename_i message source h_fill
    simp [Unread.peek, unread, toCome, h_drop, h_more, Source.delivered_of_failed h_fill]

/-- Read-ahead cannot be told apart from the bytes that it has not read. -/
theorem view_unread : Input.View (unread : ReadAhead σ → Unread) where
  peek r := by
    change Unread.peek r.unread = r.peek.map id unread
    unfold peek
    cases h : r.window[r.position]? with
    | some b => simp [Unread.peek, unread, drop_window h]
    | none =>
      cases h_more : r.exhausted with
      | true => simp [Unread.peek, unread, toCome, drop_window_nil h, h_more]
      | false => simpa using unread_refill h h_more
  advance {r r' b} h := by
    have h_window := window_of_peek h
    change r'.unread.advance = r'.advance.unread
    have h_line : r'.line + newlines [b] =
        if b == Ascii.newline then r'.line + 1 else r'.line := by
      by_cases h_newline : b = Ascii.newline <;> simp [newlines, h_newline]
    simp [Unread.advance, advance, unread, toCome, h_window, drop_window h_window, h_line]
  line r := rfl

/-- A stream over a source is, to its caller, a stream over what the source delivers. -/
theorem map_unread_ofSource (source : σ) (options : ReaderOptions) :
    (Stream.ofSource source options).map unread =
      Stream.ofInput
        { bytes := (Source.delivered source (max options.bufferSize 1)).1
          failure := (Source.delivered source (max options.bufferSize 1)).2 }
        options.comments := by
  simp [Stream.ofSource, ofSource, unread, toCome]

end ReadAhead

/-! ## Text that stands ready -/

/-- Text that stands ready is delivered as it is, whatever it is asked for at once. -/
theorem Slice.delivered_eq (text : Bytes) (size : Nat) (h : 0 < size) :
    Source.delivered ({ rest := text } : Slice) size = (text, none) := by
  induction h_length : text.length using Nat.strongRecOn generalizing text with
  | ind n ih =>
    subst h_length
    have h_fill : Source.fill ({ rest := text } : Slice) size =
        (.bytes (text.take size), { rest := text.drop size }) := by
      change Slice.answer _ _ = _
      unfold Slice.answer
      split
      · simp_all
      · rfl
    cases text with
    | nil => exact Source.delivered_of_none h_fill (by simp)
    | cons b rest =>
      have h_some : ((b :: rest).take size).take size ≠ [] := by
        simp; omega
      rw [Source.delivered_of_bytes h_fill h_some, ih _ _ _ rfl]
      · simp [List.take_take]
      · simp only [List.length_drop, List.length_cons]
        omega

end PropertyText
