/-
  PropertyText.Source

  Where the bytes of a document come from.  A source is asked for at most so many bytes
  and hands over some of them; none at all means that there are no more.  The measure
  `supply` bounds what a source can still hand over, so whoever keeps asking comes to an
  end.
-/
import PropertyText.Bytes

namespace PropertyText

/-- What a source hands over when it is asked. -/
inductive Fill where
  /-- Bytes, of which only as many as were asked for count. -/
  | bytes (bytes : Bytes)
  /-- Nothing this time; asking again may succeed. -/
  | interrupted (message : String)
  | failed (message : String)
  deriving DecidableEq, Repr

class Source (σ : Type) where
  /-- Asks for at most the given number of bytes. -/
  fill : σ → Nat → Fill × σ
  /-- A bound on the bytes and interruptions still to come. -/
  supply : σ → Nat
  supply_of_bytes {s s' : σ} {size : Nat} {bytes : Bytes} :
    fill s size = (.bytes bytes, s') → bytes.take size ≠ [] →
      (bytes.take size).length + supply s' ≤ supply s
  supply_of_interrupted {s s' : σ} {size : Nat} {message : String} :
    fill s size = (.interrupted message, s') → supply s' < supply s

namespace Source

variable {σ : Type} [Source σ]

/-- Asks for more until the source is done: all the bytes, or the answer that ended it.
The bytes so far stand in reverse. -/
def drainOnto (read : Bytes) (s : σ) (size : Nat) : Fill × σ :=
  match _h : fill s size with
  | (.bytes bytes, s') =>
    if _h_none : bytes.take size = [] then (.bytes read.reverse, s')
    else drainOnto ((bytes.take size).reverseAux read) s' size
  | (.interrupted _, s') => drainOnto read s' size
  | (.failed message, s') => (.failed message, s')
termination_by supply s
decreasing_by
  · have := supply_of_bytes _h _h_none
    have := List.length_pos_iff.mpr _h_none
    omega
  · exact supply_of_interrupted _h

/-- Everything that a source still holds, interruptions aside. -/
def drain (s : σ) : Fill × σ := drainOnto [] s 32

end Source

/-! ## Text that stands ready -/

/-- Text that stands ready as a whole.  Where reading on is not possible, the failure
stands behind it. -/
structure Slice where
  rest : Bytes
  failure : Option String := none
  deriving DecidableEq, Repr

namespace Slice

/-- Hands over as much as is asked for. -/
def answer (s : Slice) (size : Nat) : Fill × Slice :=
  match s.rest, s.failure with
  | [], some message => (.failed message, s)
  | rest, _ => (.bytes (rest.take size), { s with rest := rest.drop size })

instance : Source Slice where
  fill := answer
  supply s := s.rest.length
  supply_of_bytes := by
    intro s s' size bytes h _
    unfold answer at h
    split at h
    · simp at h
    · obtain ⟨h_bytes, rfl⟩ := Prod.mk.inj h
      obtain rfl := Fill.bytes.inj h_bytes
      simp only [List.take_take, List.length_take, List.length_drop]
      omega
  supply_of_interrupted := by
    intro s s' size message h
    unfold answer at h
    split at h <;> simp at h

end Slice

/-! ## Asking again after an interruption -/

/-- A source whose interruptions are not shown: it is asked again until it answers. -/
structure Retrying (σ : Type) where
  source : σ

namespace Retrying

variable {σ : Type} [Source σ]

/-- Asks until the answer is not an interruption. -/
def askAgain (s : σ) (size : Nat) : Fill × σ :=
  match _h : Source.fill s size with
  | (.interrupted _, s') => askAgain s' size
  | (.bytes bytes, s') => (.bytes bytes, s')
  | (.failed message, s') => (.failed message, s')
termination_by Source.supply s
decreasing_by exact Source.supply_of_interrupted _h

theorem askAgain_ne_interrupted (s : σ) (size : Nat) (message : String) :
    (askAgain s size).1 ≠ .interrupted message := by
  fun_induction askAgain s size with
  | case1 s s' m h ih => exact ih
  | case2 s bytes s' h => simp
  | case3 s m s' h => simp

theorem supply_askAgain (s : σ) (size : Nat) :
    ∀ {s' bytes}, askAgain s size = (.bytes bytes, s') → bytes.take size ≠ [] →
      (bytes.take size).length + Source.supply s' ≤ Source.supply s := by
  fun_induction askAgain s size with
  | case1 s s₁ m h ih =>
    intro s' bytes h_answer h_some
    have := Source.supply_of_interrupted h
    have := ih h_answer h_some
    omega
  | case2 s b s₁ h =>
    intro s' bytes h_answer h_some
    obtain ⟨rfl, rfl⟩ : b = bytes ∧ s₁ = s' := by simpa using h_answer
    exact Source.supply_of_bytes h h_some
  | case3 s m s₁ h =>
    intro s' bytes h_answer
    simp at h_answer

instance : Source (Retrying σ) where
  fill s size := let (answer, source) := askAgain s.source size; (answer, ⟨source⟩)
  supply s := Source.supply s.source
  supply_of_bytes := by
    intro s s' size bytes h h_some
    obtain ⟨h_bytes, rfl⟩ : (askAgain s.source size).1 = .bytes bytes ∧
        (⟨(askAgain s.source size).2⟩ : Retrying σ) = s' := by simpa using h
    exact supply_askAgain s.source size (Prod.ext h_bytes rfl) h_some
  supply_of_interrupted := by
    intro s s' size message h
    exact absurd (congrArg Prod.fst h) (askAgain_ne_interrupted s.source size message)

end Retrying

/-! ## A caller that only counts -/

/-- A source that can only report how many bytes it wrote: a failure counts as no bytes,
and when the space is filled it claims `excess` bytes more than it wrote. -/
structure Counting (σ : Type) where
  source : σ
  excess : Nat

namespace Counting

variable {σ : Type} [Source σ]

/-- The bytes that are claimed for those that were written. -/
def claimed (excess size : Nat) (bytes : Bytes) : Bytes :=
  if (bytes.take size).length = size then bytes.take size ++ List.replicate excess 0
  else bytes.take size

theorem take_claimed (excess size : Nat) (bytes : Bytes) :
    (claimed excess size bytes).take size = bytes.take size := by
  unfold claimed
  split
  · rename_i h
    rw [List.take_append_of_le_length (Nat.le_of_eq h.symm), List.take_take, Nat.min_self]
  · rw [List.take_take, Nat.min_self]

instance : Source (Counting σ) where
  fill s size :=
    match Source.fill s.source size with
    | (.bytes bytes, source) => (.bytes (claimed s.excess size bytes), { s with source })
    | (_, source) => (.bytes [], { s with source })
  supply s := Source.supply s.source
  supply_of_bytes := by
    intro s s' size bytes h h_some
    split at h
    · rename_i b source h_fill
      obtain ⟨h_bytes, rfl⟩ := Prod.mk.inj h
      obtain rfl := Fill.bytes.inj h_bytes
      rw [take_claimed] at h_some ⊢
      exact Source.supply_of_bytes h_fill h_some
    · obtain ⟨h_bytes, rfl⟩ := Prod.mk.inj h
      obtain rfl : ([] : Bytes) = bytes := Fill.bytes.inj h_bytes
      simp at h_some
  supply_of_interrupted := by
    intro s s' size message h
    split at h <;> simp at h

end Counting
end PropertyText
