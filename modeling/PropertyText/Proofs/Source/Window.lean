/-
  PropertyText.Proofs.Source.Window

  Read-ahead under looks and steps in any order (`Input.Use`).  The position stays within the
  window, and the window within the bytes that are asked for (`ReadAhead.Fits`).  The bytes
  that are stepped over are those that the source brought, each once and in their order, and
  behind an empty answer or a failure the source is not asked again.  All this holds of sources
  that claim more bytes than they have written, too (`Callback`).  Main statement:
  `ReadAhead.performAll_once_in_order`.
-/
import Mathlib.Algebra.GroupWithZero.Nat
import PropertyText.Proofs.Source.Traced

namespace PropertyText

/-! ## Looks and steps -/

/-- What a look shows when it is made once more: the same, but a failure is told only once. -/
def Look.again : Look → Look
  | .failed _ => .ended
  | look => look

namespace Input

/-- Something that is done with an input: to look at the next byte, or to step over it as
well. -/
inductive Use where
  | peek
  | consume
  deriving DecidableEq, Repr

variable {ι κ : Type} [Input ι] [Input κ]

/-- Steps over the next byte, if there is one. -/
def consume (i : ι) : Look × ι :=
  match peek i with
  | (.byte b, i') => (.byte b, advance i')
  | (look, i') => (look, i')

def perform (i : ι) : Use → Look × ι
  | .peek => peek i
  | .consume => consume i

def performAll (i : ι) : List Use → List Look × ι
  | [] => ([], i)
  | use :: uses =>
    let (look, i) := perform i use
    let (looks, i) := performAll i uses
    (look :: looks, i)

/-- The byte that was stepped over, if one was. -/
def consumed? : Use × Look → Option UInt8
  | (.consume, .byte b) => some b
  | _ => none

/-- The bytes that were stepped over, by what the uses showed. -/
def consumed (uses : List Use) (looks : List Look) : Bytes :=
  (uses.zip looks).filterMap consumed?

theorem consume_of_byte {i i' : ι} {b : UInt8} (h : peek i = (.byte b, i')) :
    consume i = (.byte b, advance i') := by
  rw [consume, h]

/-- A use that steps over no byte is a look. -/
theorem perform_of_none {i : ι} {use : Use} (h : consumed? (use, (peek i).1) = none) :
    perform i use = peek i := by
  cases use with
  | peek => rfl
  | consume =>
    change consume i = peek i
    rcases h_look : peek i with ⟨b | _ | message, i'⟩
    case byte =>
      rw [h_look] at h
      cases h
    all_goals rw [consume, h_look]

/-- A use looks at the next byte, and steps over it if it is to do so and there is one. -/
theorem perform_cases (i : ι) (use : Use) :
    consumed? (use, (peek i).1) = none ∧ perform i use = peek i ∨
      use = .consume ∧ ∃ b i', peek i = (.byte b, i') ∧ perform i use = (.byte b, advance i') := by
  cases h : consumed? (use, (peek i).1) with
  | none => exact Or.inl ⟨rfl, perform_of_none h⟩
  | some b =>
    rcases h_look : peek i with ⟨look, i'⟩
    rw [h_look] at h
    cases use with
    | peek => cases h
    | consume =>
      cases look with
      | byte c => exact Or.inr ⟨rfl, c, i', rfl, consume_of_byte h_look⟩
      | ended | failed message => cases h

/-- A use shows what a look would have shown. -/
theorem fst_perform (i : ι) (use : Use) : (perform i use).1 = (peek i).1 := by
  rcases perform_cases i use with ⟨-, h_use⟩ | ⟨-, b, i', h_look, h_use⟩
  · rw [h_use]
  · rw [h_use, h_look]

/-- What looks and steps keep holds behind any use. -/
theorem perform_keeps {P : ι → Prop} (h_peek : ∀ i, P i → P (peek i).2)
    (h_advance : ∀ i b i', peek i = (.byte b, i') → P i' → P (advance i')) {i : ι} (h : P i)
    (use : Use) : P (perform i use).2 := by
  have h_behind := h_peek i h
  rcases perform_cases i use with ⟨-, h_use⟩ | ⟨-, b, i', h_look, h_use⟩
  · rwa [h_use]
  · rw [h_look] at h_behind
    rw [h_use]
    exact h_advance i b i' h_look h_behind

theorem performAll_keeps {P : ι → Prop} (h_peek : ∀ i, P i → P (peek i).2)
    (h_advance : ∀ i b i', peek i = (.byte b, i') → P i' → P (advance i')) {i : ι} (h : P i)
    (uses : List Use) : P (performAll i uses).2 := by
  induction uses generalizing i with
  | nil => exact h
  | cons use uses ih => exact ih (perform_keeps h_peek h_advance h use)

/-- Where a look changes nothing, all further looks show the same, and so does the step that
follows them. -/
theorem looks_of_peek_eq {i : ι} {look : Look} (h : peek i = (look, i)) (n : Nat) :
    (performAll i (List.replicate n .peek ++ [.consume])).1 = List.replicate (n + 1) look := by
  induction n with
  | zero =>
    change [(perform i .consume).1] = [look]
    rw [fst_perform, h]
  | succ n ih =>
    rw [List.replicate_succ, List.cons_append, performAll, perform, h]
    exact congrArg (look :: ·) ih

namespace View

variable {view : ι → κ}

theorem perform (h : View view) (i : ι) (use : Use) :
    perform (view i) use = (perform i use).map id view := by
  rcases perform_cases i use with ⟨h_none, h_use⟩ | ⟨rfl, b, i', h_look, h_use⟩
  · have h_view : consumed? (use, (Input.peek (view i)).1) = none := by
      rw [h.peek]
      exact h_none
    rw [h_use, perform_of_none h_view, h.peek]
  · rw [h_use, Prod.map, ← h.advance h_look]
    exact consume_of_byte (h.peek_eq h_look)

/-- A view shows what the input itself shows, whatever is done with it. -/
theorem performAll (h : View view) (i : ι) (uses : List Use) :
    performAll (view i) uses = (performAll i uses).map id view := by
  induction uses generalizing i with
  | nil => rfl
  | cons use uses ih =>
    rw [Input.performAll, Input.performAll, h.perform]
    dsimp only [Prod.map]
    rw [ih]
    rfl

end View
end Input

open Input

/-! ## The window -/

namespace ReadAhead

variable {σ : Type}

/-- The position stands within the window or right behind it, and the window is no larger than
what is asked for.  The source is done only where the window is used up. -/
structure Fits (r : ReadAhead σ) : Prop where
  position_le : r.position ≤ r.window.size
  size_le : r.window.size ≤ r.capacity
  used_up : r.exhausted = true → r.window[r.position]? = none

theorem fits_ofSource (source : σ) (capacity : Nat) : (ofSource source capacity).Fits where
  position_le := Nat.le_refl 0
  size_le := Nat.zero_le _
  used_up := nofun

theorem Fits.advance {r : ReadAhead σ} (h : r.Fits) : r.advance.Fits := by
  unfold ReadAhead.advance
  split
  · rename_i b h_window
    obtain ⟨h_lt, -⟩ := Array.getElem?_eq_some_iff.mp h_window
    refine ⟨h_lt, h.size_le, ?_⟩
    -- There is a byte to step over, so the source is not done.
    intro h_exhausted
    rw [h.used_up h_exhausted] at h_window
    cases h_window
  · exact h

variable [Source σ] {r : ReadAhead σ}

theorem Fits.refill (h : r.Fits) (h_window : r.window[r.position]? = none)
    (h_exhausted : r.exhausted = false) : r.refill.2.Fits := by
  unfold ReadAhead.refill
  split
  · rename_i bytes source h_fill
    split
    · exact ⟨h.position_le, h.size_le, fun _ => h_window⟩
    · rename_i b rest h_take
      -- Whatever is claimed, no more counts than was asked for.
      have h_length := List.length_take_le r.capacity bytes
      rw [h_take] at h_length
      refine ⟨Nat.zero_le _, h_length, ?_⟩
      intro h_done
      rw [h_exhausted] at h_done
      cases h_done
  · exact ⟨h.position_le, h.size_le, fun _ => h_window⟩
  · exact ⟨h.position_le, h.size_le, fun _ => h_window⟩

theorem Fits.peek (h : r.Fits) : r.peek.2.Fits := by
  rcases r.peek_cases with ⟨b, h_peek, -⟩ | ⟨h_peek, -⟩ | ⟨h_window, h_exhausted, h_peek, -⟩
  · rwa [h_peek]
  · rwa [h_peek]
  · rw [h_peek]
    exact h.refill h_window h_exhausted

theorem Fits.performAll (h : r.Fits) (uses : List Use) : (Input.performAll r uses).2.Fits :=
  performAll_keeps (fun _ h => h.peek) (fun _ _ _ _ h => h.advance) h uses

/-- Once the source is done and the window is used up, a look changes nothing. -/
theorem peek_of_exhausted (h_window : r.window[r.position]? = none)
    (h_exhausted : r.exhausted = true) : r.peek = (.ended, r) ∧ r.request = none := by
  unfold ReadAhead.peek request
  rw [h_window]
  simp only [h_exhausted, if_true, and_self]

/-- Where a request shows no byte, the source is done. -/
theorem exhausted_of_refill {r' : ReadAhead σ} {look : Look} (h : r.refill = (look, r'))
    (h_look : ∀ b, look ≠ .byte b) : r'.exhausted = true := by
  unfold refill at h
  split at h
  · split at h
    · obtain ⟨-, rfl⟩ := Prod.mk.inj h
      rfl
    · obtain ⟨h_byte, -⟩ := Prod.mk.inj h
      exact absurd h_byte.symm (h_look _)
  · obtain ⟨-, rfl⟩ := Prod.mk.inj h
    rfl
  · obtain ⟨-, rfl⟩ := Prod.mk.inj h
    rfl

theorem exhausted_of_peek {r' : ReadAhead σ} {look : Look} (h : r.peek = (look, r'))
    (h_look : ∀ b, look ≠ .byte b) : r'.exhausted = true := by
  unfold ReadAhead.peek at h
  split at h
  · obtain ⟨h_byte, -⟩ := Prod.mk.inj h
    exact absurd h_byte.symm (h_look _)
  · split at h
    · obtain ⟨-, rfl⟩ := Prod.mk.inj h
      assumption
    · exact exhausted_of_refill h h_look

/-- A look that is made once more shows the same and changes nothing. -/
theorem Fits.peek_again (h : r.Fits) : r.peek.2.peek = (r.peek.1.again, r.peek.2) := by
  have h_behind := h.peek
  rcases h_look : r.peek with ⟨b | _ | message, r'⟩
  all_goals rw [h_look] at h_behind
  case byte =>
    unfold ReadAhead.peek
    rw [window_of_peek h_look]
    rfl
  -- No byte was shown, so the source is done, and the look that follows does not ask it.
  all_goals
    have h_exhausted := exhausted_of_peek h_look nofun
    exact (peek_of_exhausted (h_behind.used_up h_exhausted) h_exhausted).1

/-- However often the next byte is looked at, what is shown is what the step that follows
shows. -/
theorem Fits.looks (h : r.Fits) (n : Nat) :
    (Input.performAll r (List.replicate (n + 1) .peek ++ [.consume])).1 =
      r.peek.1 :: List.replicate (n + 1) r.peek.1.again := by
  have h_again : Input.peek r.peek.2 = (r.peek.1.again, r.peek.2) := h.peek_again
  rw [List.replicate_succ, List.cons_append]
  exact congrArg (r.peek.1 :: ·) (looks_of_peek_eq h_again n)

end ReadAhead

/-! ## The log -/

namespace Traced

variable {σ : Type} [Source σ] {source : σ} {size : Nat} {whole : Bytes} {t : Traced σ}

theorem Kept.performAll (h : Kept source size whole t) (uses : List Use) :
    Kept source size whole (Input.performAll t uses).2 :=
  performAll_keeps (fun _ h => h.peek rfl) (fun _ _ _ h_peek h => h.advance h_peek) h uses

/-- What is stepped over is what the uses show. -/
theorem taken_perform (t : Traced σ) (use : Use) :
    Log.taken (Input.perform t use).2.log =
      Log.taken t.log ++ (consumed? (use, (Input.perform t use).1)).toList := by
  rcases perform_cases t use with ⟨h_none, h_use⟩ | ⟨rfl, b, t', h_look, h_use⟩
  · obtain ⟨bytes, h_log⟩ := log_of_peek (Prod.eta (Input.peek t)).symm
    rw [h_use, h_none, h_log, Log.taken_append, Log.taken_looked]
    rfl
  · obtain ⟨bytes, h_log⟩ := log_of_peek h_look
    rw [h_use, log_advance h_look, h_log, Log.taken_append, Log.taken_append, Log.taken_looked,
      Log.taken_took, List.append_nil]
    rfl

theorem taken_performAll (t : Traced σ) (uses : List Use) :
    Log.taken (Input.performAll t uses).2.log =
      Log.taken t.log ++ consumed uses (Input.performAll t uses).1 := by
  induction uses generalizing t with
  | nil => exact (List.append_nil _).symm
  | cons use uses ih =>
    rw [Input.performAll]
    dsimp only
    rw [ih, taken_perform, List.append_assoc]
    cases h_byte : consumed? (use, (Input.perform t use).1) with
    | none => simp [consumed, h_byte]
    | some b => simp [consumed, h_byte]

/-- Once the source is done and the window is used up, only looks are made that show nothing
and ask for nothing. -/
theorem performAll_of_exhausted (h_window : t.reader.window[t.reader.position]? = none)
    (h_exhausted : t.reader.exhausted = true) (uses : List Use) :
    Input.performAll t uses = (List.replicate uses.length .ended,
      ⟨t.reader, t.log ++ List.replicate uses.length (.looked none .ended)⟩) := by
  induction uses generalizing t with
  | nil =>
    rw [List.length_nil, List.replicate_zero, List.replicate_zero, List.append_nil]
    rfl
  | cons use uses ih =>
    obtain ⟨h_peek, h_request⟩ := ReadAhead.peek_of_exhausted h_window h_exhausted
    let t' : Traced σ := ⟨t.reader, t.log ++ [.looked none .ended]⟩
    have h_look : Input.peek t = (.ended, t') := by
      change Traced.peek t = _
      rw [Traced.peek, h_peek, h_request]
    have h_none : consumed? (use, (Input.peek t).1) = none := by
      rw [h_look]
      cases use <;> rfl
    have h_use : Input.perform t use = (.ended, t') := (perform_of_none h_none).trans h_look
    have h_rest := ih (t := t') h_window h_exhausted
    rw [Input.performAll, h_use]
    dsimp only
    rw [h_rest, List.append_assoc]
    rfl

end Traced

/-! ## A callback that is handed the space -/

/-- An answer of a callback: bytes that it writes to the front of the space that it is handed,
with the number of bytes that it claims to have written, or none. -/
inductive Reply where
  | wrote (written : Bytes) (claimed : Nat)
  | interrupted (message : String)
  | failed (message : String)
  deriving DecidableEq, Repr

/-- A source that is handed the same space with each request and is believed in what it claims
to have written there, whether or not it has. -/
structure Callback where
  replies : List Reply
  /-- What stands in the space, with zeros behind it. -/
  space : Bytes := []
  deriving DecidableEq, Repr

namespace Callback

/-- A claim is answered by what stands in the space.  Behind its end there is nothing to
answer it by, so zeros do, which do not count. -/
def answer (c : Callback) (size : Nat) : Fill × Callback :=
  match c.replies with
  | [] => (.bytes [], c)
  | .wrote written claimed :: replies =>
    let space := (written ++ c.space.drop written.length).take size
    (.bytes (space.take claimed ++ List.replicate (claimed - space.length) 0), ⟨replies, space⟩)
  | .interrupted message :: replies => (.interrupted message, { c with replies })
  | .failed message :: replies => (.failed message, { c with replies })

/-- How much a source can still do by a reply. -/
def weight : Reply → Nat
  | .wrote _ claimed => claimed
  | .interrupted _ => 1
  | .failed _ => 0

def bound (c : Callback) : Nat := (c.replies.map weight).sum

instance : Source Callback where
  fill := answer
  supply := bound
  supply_of_bytes := by
    intro c c' size bytes h h_some
    unfold answer at h
    split at h
    case h_1 =>
      obtain rfl : ([] : Bytes) = bytes := Fill.bytes.inj (Prod.mk.inj h).1
      simp at h_some
    case h_2 written claimed replies h_replies =>
      obtain ⟨h_bytes, rfl⟩ := Prod.mk.inj h
      obtain rfl := Fill.bytes.inj h_bytes
      simp only [bound, h_replies, weight, List.map_cons, List.sum_cons, List.length_take,
        List.length_append, List.length_replicate]
      omega
    all_goals simp at h
  supply_of_interrupted := by
    intro c c' size message h
    unfold answer at h
    split at h
    case h_3 text replies h_replies =>
      obtain ⟨-, rfl⟩ := Prod.mk.inj h
      simp [bound, h_replies, weight]
    all_goals simp at h

end Callback

/-! ## Every byte once and in order -/

namespace ReadAhead

variable {σ : Type} [Source σ]

/-- Whatever a source does, and however large the window is, looks and steps in any order show
what the delivered text itself would show (a log of them, which holds every request, does not
change that).  The position stays within the window, and the window within the bytes that are
asked for; a byte that is looked at stands in front of the window's end.  What has been stepped
over, with the rest of the window behind it, is what the source has brought.  A look shows what
the looks and the step behind it show, except that a failure is told only once.  Behind an empty
answer or a failure, all that was brought has been stepped over, and looks and steps show
nothing and ask for nothing. -/
theorem performAll_once_in_order (source : σ) (capacity : Nat) (uses : List Use) :
    let size := max capacity 1
    let start := ofSource source capacity
    let answers := (Input.performAll start uses).1
    let r := (Input.performAll start uses).2
    let log := (Input.performAll (⟨start, []⟩ : Traced σ) uses).2.log
    let fills := Log.brought log
    let text : Unread :=
      { bytes := (Source.delivered source size).1, failure := (Source.delivered source size).2 }
    (answers = (Input.performAll text uses).1 ∧
      Input.performAll (⟨start, []⟩ : Traced σ) uses = (answers, ⟨r, log⟩) ∧
      Source.brought source size fills.length = (fills, r.source)) ∧
    ((r.position ≤ r.window.size ∧ r.window.size ≤ r.capacity ∧ r.capacity = size) ∧
      ∀ b r', r.peek = (.byte b, r') →
        ∃ h : r'.position < r'.window.size, r'.window[r'.position] = b) ∧
    consumed uses answers ++ r.window.toList.drop r.position = fills.flatten ∧
    (∀ n, (Input.performAll r (List.replicate (n + 1) .peek ++ [.consume])).1 =
      r.peek.1 :: List.replicate (n + 1) r.peek.1.again) ∧
    ([] ∈ fills → consumed uses answers = fills.flatten ∧
      ∀ more, Input.performAll (⟨r, log⟩ : Traced σ) more =
        (List.replicate more.length .ended,
          ⟨r, log ++ List.replicate more.length (.looked none .ended)⟩)) := by
  intro size start answers r log fills text
  have h_logged : Input.performAll (⟨start, []⟩ : Traced σ) uses = (answers, ⟨r, log⟩) := by
    have h_view : Input.performAll start uses = _ :=
      Traced.view_reader.performAll (⟨start, []⟩ : Traced σ) uses
    exact Prod.ext (congrArg Prod.fst h_view).symm
      (congrArg (Traced.mk · log) (congrArg Prod.snd h_view).symm)
  have h_kept : Traced.Kept source size (Source.delivered source size).1 ⟨r, log⟩ := by
    have h_run := (Traced.kept_start source capacity).performAll uses
    rwa [h_logged] at h_run
  have h_taken : Log.taken log = consumed uses answers := by
    have h_run := Traced.taken_performAll (⟨start, []⟩ : Traced σ) uses
    rwa [h_logged] at h_run
  have h_text : Input.performAll text uses = (answers, r.unread) := by
    have h_start : start.unread = text := by
      simp [start, text, size, unread, toCome, ofSource]
    rw [← h_start]
    exact view_unread.performAll start uses
  have h_fits : r.Fits := (fits_ofSource source capacity).performAll uses
  have h_window : fills.flatten = consumed uses answers ++ r.window.toList.drop r.position :=
    h_taken ▸ h_kept.window
  refine ⟨⟨(congrArg Prod.fst h_text).symm, h_logged, h_kept.brought⟩,
    ⟨⟨h_fits.position_le, h_fits.size_le, h_kept.capacity⟩, ?_⟩, h_window.symm, h_fits.looks, ?_⟩
  · intro b r' h_look
    exact Array.getElem?_eq_some_iff.mp (window_of_peek h_look)
  · intro h_end
    -- The source is asked only behind its window, so where it has ended the window is used up.
    have h_exhausted : r.exhausted = true := h_kept.exhausted h_end
    have h_used := h_fits.used_up h_exhausted
    rw [drop_window_nil h_used, List.append_nil] at h_window
    exact ⟨h_window.symm, Traced.performAll_of_exhausted h_used h_exhausted⟩

/-- A callback that is handed two bytes of space claims to have written five of `ab`, is
interrupted, and claims two where it has written only a `c`: the `b` that stands behind it counts
once more.  What it would write behind its end is never asked for. -/
theorem performAll_once_in_order_misreported :
    let callback : Callback :=
      { replies := [.wrote [0x61, 0x62] 5, .interrupted "again", .wrote [0x63] 2, .wrote [] 0,
          .wrote [0x64] 1] }
    let uses : List Use :=
      [.peek, .consume, .consume, .peek, .peek, .consume, .consume, .consume]
    let start : ReadAhead (Retrying Callback) := ofSource ⟨callback⟩ 2
    let answers := (Input.performAll start uses).1
    let r := (Input.performAll start uses).2
    let log := (Input.performAll (⟨start, []⟩ : Traced (Retrying Callback)) uses).2.log
    (Log.brought log = [[0x61, 0x62], [0x63, 0x62], []] ∧
      r.source.source.replies = [.wrote [0x64] 1]) ∧
    consumed uses answers = [0x61, 0x62, 0x63, 0x62] ∧
    ∀ more, Input.performAll (⟨r, log⟩ : Traced (Retrying Callback)) more =
      (List.replicate more.length .ended,
        ⟨r, log ++ List.replicate more.length (.looked none .ended)⟩) := by
  intro callback uses start answers r log
  have h_brought : Log.brought log = [[0x61, 0x62], [0x63, 0x62], []] := by decide +kernel
  have h_replies : r.source.source.replies = [.wrote [0x64] 1] := by decide +kernel
  have h_end : [] ∈ Log.brought log := by
    rw [h_brought]
    decide
  -- What is left holds of any uses that bring so much; these need not be run any more.
  clear_value uses
  obtain ⟨h_consumed, h_still⟩ :=
    (performAll_once_in_order (⟨callback⟩ : Retrying Callback) 2 uses).2.2.2.2 h_end
  refine ⟨⟨h_brought, h_replies⟩, h_consumed.trans ?_, h_still⟩
  exact congrArg List.flatten h_brought

end ReadAhead
end PropertyText
