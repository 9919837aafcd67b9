/-
  PropertyText.Proofs.Input.View

  A view takes an input to another one that looks the same from outside: the same byte
  stands next, stepping over it keeps the two together, and they are on the same line.
  How an input holds its text (in windows, as one list) then makes no difference to a
  reader.  Main statement: reading a token commutes with a view (`Token.scan_view`).
-/
import PropertyText.Token

namespace PropertyText

variable {ι κ : Type} [Input ι] [Input κ]

/-! ## What a token does with the next byte -/

namespace Token

variable {comments : Bool} {mode : Mode} {i i' : ι}

theorem scan_of_ended (h : Input.peek i = (.ended, i')) :
    scan comments mode i = (mode.finish.mapError .malformed, i') := by
  rw [scan]
  split <;> simp_all

theorem scan_of_failed {message : String} (h : Input.peek i = (.failed message, i')) :
    scan comments mode i = (.error (.failed message), i') := by
  rw [scan]
  split <;> simp_all

theorem scan_of_byte {b : UInt8} (h : Input.peek i = (.byte b, i')) :
    scan comments mode i =
      match mode.step comments b with
      | .more next => scan comments next (Input.advance i')
      | .done token => (.ok token, Input.advance i')
      | .before token => (.ok token, i')
      | .refused cause => (.error (.malformed cause), Input.advance i') := by
  rw [scan]
  split
  · simp_all
  · simp_all
  · rename_i c i₁ h_peek
    obtain ⟨h_look, rfl⟩ := Prod.mk.inj (h_peek.symm.trans h)
    obtain rfl := Look.byte.inj h_look
    cases mode.step comments c <;> rfl

end Token

/-! ## Views -/

/-- `view` shows an input as another one that cannot be told apart from it. -/
structure Input.View (view : ι → κ) : Prop where
  peek (i : ι) : Input.peek (view i) = (Input.peek i).map id view
  advance {i i' : ι} {b : UInt8} :
    Input.peek i = (.byte b, i') → Input.advance (view i') = view (Input.advance i')
  line (i : ι) : Input.line (view i) = Input.line i

namespace Input.View

variable {view : ι → κ}

theorem peek_eq (h : Input.View view) {i i' : ι} {look : Look}
    (h_peek : Input.peek i = (look, i')) : Input.peek (view i) = (look, view i') := by
  rw [h.peek, h_peek]
  rfl

/-- A view of what a view shows is one of the input itself. -/
theorem comp {μ : Type} [Input μ] {further : κ → μ} (h : Input.View view)
    (h_further : Input.View further) : Input.View fun i => further (view i) where
  peek i := by
    rw [h_further.peek, h.peek]
    rfl
  advance h_peek := by rw [h_further.advance (h.peek_eq h_peek), h.advance h_peek]
  line i := by rw [h_further.line, h.line]

end Input.View

/-- A token read through a view is the token of the input itself. -/
theorem Token.scan_view {view : ι → κ} (h : Input.View view) (comments : Bool) (mode : Mode)
    (i : ι) : scan comments mode (view i) = (scan comments mode i).map id view := by
  fun_induction scan comments mode i with
  | case1 mode i i' h_peek => rw [scan_of_ended (h.peek_eq h_peek)]; rfl
  | case2 mode i m i' h_peek => rw [scan_of_failed (h.peek_eq h_peek)]; rfl
  | case3 mode i b i' h_peek next h_step ih =>
    rw [scan_of_byte (h.peek_eq h_peek), h_step]
    dsimp only
    rw [h.advance h_peek, ih]
  | case4 mode i b i' h_peek token h_step =>
    rw [scan_of_byte (h.peek_eq h_peek), h_step, Prod.map, ← h.advance h_peek]; rfl
  | case5 mode i b i' h_peek token h_step =>
    rw [scan_of_byte (h.peek_eq h_peek), h_step]; rfl
  | case6 mode i b i' h_peek cause h_step =>
    rw [scan_of_byte (h.peek_eq h_peek), h_step, Prod.map, ← h.advance h_peek]; rfl

end PropertyText
