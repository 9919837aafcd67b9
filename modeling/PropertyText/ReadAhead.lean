/-
  PropertyText.ReadAhead

  Read-ahead over a source: a window of bytes that were handed over and not yet stepped
  over, filled again when it is used up.  Once a source has said that there are no more
  bytes, or has failed, it is not asked again.
-/
import PropertyText.Input
import PropertyText.Source

namespace PropertyText

structure ReadAhead (σ : Type) where
  source : σ
  /-- How many bytes the source is asked for. -/
  capacity : Nat
  /-- The bytes that were handed over last. -/
  window : Array UInt8 := #[]
  /-- How many bytes of the window have been stepped over. -/
  position : Nat := 0
  line : Nat := 1
  /-- Whether the source is done. -/
  exhausted : Bool := false

namespace ReadAhead

variable {σ : Type}

/-- Read-ahead of at least one byte. -/
def ofSource (source : σ) (capacity : Nat) : ReadAhead σ :=
  { source, capacity := max capacity 1 }

/-- Steps over the next byte of the window. -/
def advance (r : ReadAhead σ) : ReadAhead σ :=
  match r.window[r.position]? with
  | some b =>
    { r with
      position := r.position + 1
      line := if b == Ascii.newline then r.line + 1 else r.line }
  | none => r

variable [Source σ]

/-- Asks the source for a new window. -/
def refill (r : ReadAhead σ) : Look × ReadAhead σ :=
  match Source.fill r.source r.capacity with
  | (.bytes bytes, source) =>
    -- Bytes beyond those asked for do not count.
    match bytes.take r.capacity with
    | [] => (.ended, { r with source, exhausted := true })
    | b :: rest => (.byte b, { r with source, window := (b :: rest).toArray, position := 0 })
  | (.interrupted message, source) | (.failed message, source) =>
    (.failed message, { r with source, exhausted := true })

/-- Looks at the next byte, which may need a new window. -/
def peek (r : ReadAhead σ) : Look × ReadAhead σ :=
  match r.window[r.position]? with
  | some b => (.byte b, r)
  | none => if r.exhausted then (.ended, r) else r.refill

/-- The bytes of the window and all that the source can still hand over. -/
def left (r : ReadAhead σ) : Nat :=
  (r.window.size - r.position) + if r.exhausted then 0 else Source.supply r.source

theorem left_refill (r : ReadAhead σ) (h : r.exhausted = false) :
    r.refill.2.left ≤ r.left := by
  unfold refill
  split
  · rename_i bytes source h_fill
    split
    · simp [left]
    · rename_i b rest h_take
      have := Source.supply_of_bytes h_fill (by simp [h_take])
      simp only [h_take, List.length_cons] at this
      simp only [left, h, List.size_toArray, List.length_cons]
      simp only [Bool.false_eq_true, if_false]
      omega
  · simp [left]
  · simp [left]

theorem left_peek (r : ReadAhead σ) : r.peek.2.left ≤ r.left := by
  unfold peek
  split
  · exact Nat.le_refl _
  · split
    · exact Nat.le_refl _
    · rename_i h
      exact left_refill r (by simpa using h)

/-- A byte that was looked at stands at the front of the window. -/
theorem window_of_peek {r r' : ReadAhead σ} {b : UInt8} (h : r.peek = (.byte b, r')) :
    r'.window[r'.position]? = some b := by
  unfold peek at h
  split at h
  · rename_i c h_window
    obtain ⟨h_byte, rfl⟩ := Prod.mk.inj h
    rw [h_window, Look.byte.inj h_byte]
  · split at h
    · simp at h
    · unfold refill at h
      split at h
      · split at h
        · simp at h
        · obtain ⟨h_byte, rfl⟩ := Prod.mk.inj h
          simp [Look.byte.inj h_byte]
      · simp at h
      · simp at h

theorem left_advance {r r' : ReadAhead σ} {b : UInt8} (h : r.peek = (.byte b, r')) :
    r'.advance.left < r'.left := by
  have h_window := window_of_peek h
  obtain ⟨h_lt, -⟩ := Array.getElem?_eq_some_iff.mp h_window
  simp only [advance, h_window, left]
  omega

instance : Input (ReadAhead σ) where
  peek := peek
  advance := advance
  line := line
  left := left
  left_peek := left_peek
  left_advance := left_advance

end ReadAhead
end PropertyText
