/-
  PropertyText.Proofs.Source.Interrupted

  What cannot be told from the answers of a stream: how a source cuts its text into
  pieces, how much it is asked for at once, and, where a source is asked again, how often
  it was interrupted.  Main statement: `Stream.transcript_eq_of_delivered_eq`.
-/
import Mathlib.Algebra.GroupWithZero.Nat
import PropertyText.Proofs.Source.Delivered
import PropertyText.Source.Scripted

namespace PropertyText

/-! ## Delivery in spite of interruptions -/

namespace Source

variable {σ : Type} [Source σ]

/-- The bytes that a source delivers when it is asked again after each interruption. -/
def deliveredAtLast (s : σ) (size : Nat) : Bytes × Option String :=
  match _h : fill s size with
  | (.bytes bytes, s') =>
    if _h_none : bytes.take size = [] then ([], none)
    else (deliveredAtLast s' size).map (bytes.take size ++ ·) id
  | (.interrupted _, s') => deliveredAtLast s' size
  | (.failed message, _) => ([], some message)
termination_by supply s
decreasing_by
  · have := supply_of_bytes _h _h_none
    have := List.length_pos_iff.mpr _h_none
    omega
  · exact supply_of_interrupted _h

section

variable {s s' : σ} {size : Nat} {bytes : Bytes} {message : String}

theorem deliveredAtLast_of_none (h : fill s size = (.bytes bytes, s'))
    (h_none : bytes.take size = []) : deliveredAtLast s size = ([], none) := by
  rw [deliveredAtLast]
  split <;> simp_all

theorem deliveredAtLast_of_bytes (h : fill s size = (.bytes bytes, s'))
    (h_some : bytes.take size ≠ []) :
    deliveredAtLast s size = (deliveredAtLast s' size).map (bytes.take size ++ ·) id := by
  rw [deliveredAtLast]
  split <;> simp_all

theorem deliveredAtLast_of_interrupted (h : fill s size = (.interrupted message, s')) :
    deliveredAtLast s size = deliveredAtLast s' size := by
  rw [deliveredAtLast]
  split <;> simp_all

theorem deliveredAtLast_of_failed (h : fill s size = (.failed message, s')) :
    deliveredAtLast s size = ([], some message) := by
  rw [deliveredAtLast]
  split <;> simp_all

end

/-- What is delivered is settled by the answer to the next request. -/
theorem delivered_congr {s t : σ} {size : Nat} (h : fill s size = fill t size) :
    delivered s size = delivered t size := by
  cases h_fill : fill t size with
  | mk answer next =>
    rw [h_fill] at h
    cases answer with
    | bytes bytes =>
      by_cases h_none : bytes.take size = []
      · rw [delivered_of_none h h_none, delivered_of_none h_fill h_none]
      · rw [delivered_of_bytes h h_none, delivered_of_bytes h_fill h_none]
    | interrupted message =>
      rw [delivered_of_interrupted h, delivered_of_interrupted h_fill]
    | failed message => rw [delivered_of_failed h, delivered_of_failed h_fill]

end Source

namespace Retrying

variable {σ : Type} [Source σ]

theorem askAgain_of_interrupted {s s' : σ} {size : Nat} {message : String}
    (h : Source.fill s size = (.interrupted message, s')) :
    askAgain s size = askAgain s' size := by
  rw [askAgain]
  split <;> simp_all

theorem askAgain_of_ne {s : σ} {size : Nat}
    (h : ∀ message, (Source.fill s size).1 ≠ .interrupted message) :
    askAgain s size = Source.fill s size := by
  rw [askAgain]
  split <;> simp_all

theorem fill_eq (s : σ) (size : Nat) :
    Source.fill (⟨s⟩ : Retrying σ) size =
      ((askAgain s size).1, ⟨(askAgain s size).2⟩) := rfl

/-- Asking again delivers what the source delivers in spite of its interruptions. -/
theorem delivered_eq (s : σ) (size : Nat) :
    Source.delivered (⟨s⟩ : Retrying σ) size = Source.deliveredAtLast s size := by
  fun_induction Source.deliveredAtLast s size with
  | case1 s bytes s' h_fill h_none =>
    have h_ask : askAgain s size = (.bytes bytes, s') := by
      rw [askAgain_of_ne (by simp [h_fill]), h_fill]
    exact Source.delivered_of_none (by rw [fill_eq, h_ask]) h_none
  | case2 s bytes s' h_fill h_some ih =>
    have h_ask : askAgain s size = (.bytes bytes, s') := by
      rw [askAgain_of_ne (by simp [h_fill]), h_fill]
    rw [Source.delivered_of_bytes (by rw [fill_eq, h_ask]) h_some, ih]
  | case3 s message s' h_fill ih =>
    rw [← ih]
    apply Source.delivered_congr
    rw [fill_eq, fill_eq, askAgain_of_interrupted h_fill]
  | case4 s message s' h_fill =>
    have h_ask : askAgain s size = (.failed message, s') := by
      rw [askAgain_of_ne (by simp [h_fill]), h_fill]
    exact Source.delivered_of_failed (by rw [fill_eq, h_ask])

end Retrying

/-! ## Interruptions put in -/

/-- A source with interruptions put in front of its answers. -/
structure Interrupting (σ : Type) where
  source : σ
  /-- The interruptions, by their messages, in front of each of the next answers. -/
  waits : List (List String)

namespace Interrupting

variable {σ : Type}

/-- How many interruptions are still put in. -/
def waiting (s : Interrupting σ) : Nat := (s.waits.map List.length).sum

theorem waiting_tail_le (s : Interrupting σ) (source : σ) :
    waiting ⟨source, s.waits.tail⟩ ≤ waiting s := by
  unfold waiting
  cases s.waits with
  | nil => exact Nat.le_refl _
  | cons wait waits => simp

variable [Source σ]

/-- The answer of the source itself, with nothing left in front of it. -/
def passOn (s : Interrupting σ) (size : Nat) : Fill × Interrupting σ :=
  ((Source.fill s.source size).1, ⟨(Source.fill s.source size).2, s.waits.tail⟩)

def answer (s : Interrupting σ) (size : Nat) : Fill × Interrupting σ :=
  match s.waits with
  | (message :: wait) :: waits => (.interrupted message, { s with waits := wait :: waits })
  | _ => s.passOn size

theorem answer_cases (s : Interrupting σ) (size : Nat) :
    (∃ message wait waits, s.waits = (message :: wait) :: waits ∧
      s.answer size = (.interrupted message, ⟨s.source, wait :: waits⟩)) ∨
    s.answer size = s.passOn size := by
  unfold answer
  split
  · rename_i message wait waits h
    exact Or.inl ⟨message, wait, waits, h, rfl⟩
  · exact Or.inr rfl

instance : Source (Interrupting σ) where
  fill := answer
  supply s := Source.supply s.source + s.waiting
  supply_of_bytes := by
    intro s s' size bytes h h_some
    rcases answer_cases s size with ⟨message, wait, waits, -, h_answer⟩ | h_answer
    · simp [h_answer] at h
    · obtain ⟨h_bytes, rfl⟩ := Prod.mk.inj (h_answer.symm.trans h)
      have h_supply : (bytes.take size).length + Source.supply (Source.fill s.source size).2 ≤
          Source.supply s.source := Source.supply_of_bytes (Prod.ext h_bytes rfl) h_some
      have h_waiting := waiting_tail_le s (Source.fill s.source size).2
      dsimp only
      omega
  supply_of_interrupted := by
    intro s s' size message h
    rcases answer_cases s size with ⟨text, wait, waits, h_waits, h_answer⟩ | h_answer
    · obtain ⟨-, rfl⟩ := Prod.mk.inj (h_answer.symm.trans h)
      simp [waiting, h_waits]
    · obtain ⟨h_message, rfl⟩ := Prod.mk.inj (h_answer.symm.trans h)
      have h_supply : Source.supply (Source.fill s.source size).2 < Source.supply s.source :=
        Source.supply_of_interrupted (Prod.ext h_message rfl)
      have h_waiting := waiting_tail_le s (Source.fill s.source size).2
      dsimp only
      omega

/-- Interruptions in front of an answer do not change what is delivered in the end. -/
theorem deliveredAtLast_wait (source : σ) (wait : List String) (waits : List (List String))
    (size : Nat) :
    Source.deliveredAtLast (⟨source, wait :: waits⟩ : Interrupting σ) size =
      Source.deliveredAtLast (⟨source, [] :: waits⟩ : Interrupting σ) size := by
  induction wait with
  | nil => rfl
  | cons message wait ih =>
    have h_fill : Source.fill (⟨source, (message :: wait) :: waits⟩ : Interrupting σ) size =
        (.interrupted message, ⟨source, wait :: waits⟩) := rfl
    rw [Source.deliveredAtLast_of_interrupted h_fill, ih]

/-- Where nothing is put in next, the source itself answers. -/
theorem exists_passOn (source : σ) (waits : List (List String)) (size : Nat) :
    ∃ s : Interrupting σ, s.source = source ∧ Source.fill s size = s.passOn size ∧
      Source.deliveredAtLast (⟨source, waits⟩ : Interrupting σ) size =
        Source.deliveredAtLast s size := by
  cases waits with
  | nil => exact ⟨⟨source, []⟩, rfl, rfl, rfl⟩
  | cons wait waits =>
    exact ⟨⟨source, [] :: waits⟩, rfl, rfl, deliveredAtLast_wait source wait waits size⟩

/-- What is put in between the answers is not seen in what is delivered in the end. -/
theorem deliveredAtLast_eq (source : σ) (waits : List (List String)) (size : Nat) :
    Source.deliveredAtLast (⟨source, waits⟩ : Interrupting σ) size =
      Source.deliveredAtLast source size := by
  fun_induction Source.deliveredAtLast source size generalizing waits with
  | case1 source bytes source' h_fill h_none =>
    obtain ⟨s, rfl, h_pass, h_eq⟩ := exists_passOn source waits size
    rw [passOn, h_fill] at h_pass
    rw [h_eq, Source.deliveredAtLast_of_none h_pass h_none]
  | case2 source bytes source' h_fill h_some ih =>
    obtain ⟨s, rfl, h_pass, h_eq⟩ := exists_passOn source waits size
    rw [passOn, h_fill] at h_pass
    rw [h_eq, Source.deliveredAtLast_of_bytes h_pass h_some, ih]
  | case3 source message source' h_fill ih =>
    obtain ⟨s, rfl, h_pass, h_eq⟩ := exists_passOn source waits size
    rw [passOn, h_fill] at h_pass
    rw [h_eq, Source.deliveredAtLast_of_interrupted h_pass, ih]
  | case4 source message source' h_fill =>
    obtain ⟨s, rfl, h_pass, h_eq⟩ := exists_passOn source waits size
    rw [passOn, h_fill] at h_pass
    rw [h_eq, Source.deliveredAtLast_of_failed h_pass]

end Interrupting

/-! ## What cannot be told from the answers -/

namespace Stream

/-- The answers of a stream depend on its source through what is delivered alone. -/
theorem transcript_ofSource {σ τ : Type} [Source σ] [Source τ] {s : σ} {t : τ}
    {o p : ReaderOptions} (h_comments : o.comments = p.comments)
    (h : Source.delivered s (max o.bufferSize 1) = Source.delivered t (max p.bufferSize 1))
    (calls : List Call) :
    (ofSource s o).transcript calls = (ofSource t p).transcript calls := by
  rw [← transcript_map ReadAhead.view_unread, ← transcript_map ReadAhead.view_unread,
    ReadAhead.map_unread_ofSource, ReadAhead.map_unread_ofSource, h, h_comments]

/-- Two sources that deliver the same bytes and end alike give the same answers, lines and
errors to every sequence of requests, whatever the pieces and the windows.  Where sources
are asked again, interruptions do not count, and putting more of them in changes nothing. -/
theorem transcript_eq_of_delivered_eq {σ τ : Type} [Source σ] [Source τ] (s : σ) (t : τ)
    (o p : ReaderOptions) (h_comments : o.comments = p.comments) (calls : List Call) :
    (Source.delivered s (max o.bufferSize 1) = Source.delivered t (max p.bufferSize 1) →
      (ofSource s o).transcript calls = (ofSource t p).transcript calls) ∧
    (Source.deliveredAtLast s (max o.bufferSize 1) =
        Source.deliveredAtLast t (max p.bufferSize 1) →
      (ofSource (⟨s⟩ : Retrying σ) o).transcript calls =
        (ofSource (⟨t⟩ : Retrying τ) p).transcript calls) ∧
    ∀ waits : List (List String),
      (ofSource (⟨⟨s, waits⟩⟩ : Retrying (Interrupting σ)) o).transcript calls =
        (ofSource (⟨s⟩ : Retrying σ) o).transcript calls := by
  refine ⟨fun h => transcript_ofSource h_comments h calls, fun h => ?_, fun waits => ?_⟩
  · apply transcript_ofSource h_comments
    rw [Retrying.delivered_eq, Retrying.delivered_eq, h]
  · apply transcript_ofSource rfl
    rw [Retrying.delivered_eq, Retrying.delivered_eq, Interrupting.deliveredAtLast_eq]

/-- A text that fails after four bytes, handed over at once, in small pieces, in small
pieces with every second request interrupted, and with interruptions put in: the answers
are the same. -/
theorem transcript_pieces_eq :
    let text : Bytes := [0x61, 0x3a, 0x62, 0x0a, 0x63]
    let whole : ScriptedSource := { schedule := { failAt := some 4 }, rest := text }
    let pieces : ScriptedSource :=
      { schedule := { pieces := #[1, 2], failAt := some 4 }, rest := text }
    let halting : ScriptedSource :=
      { schedule := { pieces := #[1, 2], interruptEvery := 2, failAt := some 4 }, rest := text }
    let tiny : ReaderOptions := { bufferSize := 0 }
    let calls : List Call := [.next 0, .readFields 0]
    (Source.delivered whole 256 = Source.delivered pieces 1 ∧
      Source.deliveredAtLast whole 256 = Source.deliveredAtLast halting 1) ∧
    (ofSource whole {}).transcript calls = (ofSource pieces tiny).transcript calls ∧
    (ofSource (⟨whole⟩ : Retrying ScriptedSource) {}).transcript calls =
      (ofSource (⟨halting⟩ : Retrying ScriptedSource) tiny).transcript calls ∧
    (ofSource (⟨⟨whole, [["again", "again"], ["again"]]⟩⟩ :
        Retrying (Interrupting ScriptedSource)) {}).transcript calls =
      (ofSource (⟨whole⟩ : Retrying ScriptedSource) {}).transcript calls := by
  intro text whole pieces halting tiny calls
  have h_pieces : Source.delivered whole 256 = Source.delivered pieces 1 := by decide +kernel
  have h_halting : Source.deliveredAtLast whole 256 = Source.deliveredAtLast halting 1 := by
    decide +kernel
  exact ⟨⟨h_pieces, h_halting⟩,
    (transcript_eq_of_delivered_eq whole pieces {} tiny rfl calls).1 h_pieces,
    (transcript_eq_of_delivered_eq whole halting {} tiny rfl calls).2.1 h_halting,
    (transcript_eq_of_delivered_eq whole halting {} tiny rfl calls).2.2 _⟩

end Stream
end PropertyText
