/-
  PropertyText.Proofs.Sink.Kept

  What a sink holds is what it has taken (`Sink.Keeps`).  However a sink cuts up, puts off
  or refuses what it is given, it holds a front part of it afterwards, and all of it where
  no failure is reported (`Sink.Keeps.writeAll`).
-/
import PropertyText.Sink.Scripted

namespace PropertyText

/-- How many of the bytes given are taken. -/
def Accept.count : Accept → Nat
  | .taken count => count
  | .interrupted _ | .failed _ => 0

namespace Sink

variable {σ : Type} [Sink σ] {s s' : σ} {b : UInt8} {rest : Bytes}

theorem writeAll_nil (s : σ) : writeAll s [] = (none, s) := by
  rw [writeAll]

theorem writeAll_of_taken {n : Nat} (h : write s (b :: rest) = (.taken (n + 1), s')) :
    writeAll s (b :: rest) = writeAll s' (rest.drop n) := by
  rw [writeAll]
  split <;> simp_all

theorem writeAll_of_interrupted {message : String}
    (h : write s (b :: rest) = (.interrupted message, s')) :
    writeAll s (b :: rest) = writeAll s' (b :: rest) := by
  rw [writeAll]
  split <;> simp_all

/-- A sink that takes nothing has failed. -/
theorem writeAll_of_full (h : write s (b :: rest) = (.taken 0, s')) :
    writeAll s (b :: rest) = (some "failed to write whole buffer", s') := by
  rw [writeAll]
  split <;> simp_all

/-- What the sink holds is told by `held`: what it has taken, in the order in which it was
given, and nothing else. -/
structure Keeps (held : σ → Bytes) : Prop where
  write (s : σ) (bytes : Bytes) :
    held (Sink.write s bytes).2 = held s ++ bytes.take (Sink.write s bytes).1.count
  flush (s : σ) : held (Sink.flush s).2 = held s

variable {held : σ → Bytes}

/-- A sink that is given bytes takes the first of them, and all if it does not fail. -/
theorem Keeps.writeAll (h_sink : Keeps held) (s : σ) (bytes : Bytes) :
    ∃ taken, taken <+: bytes ∧ held (Sink.writeAll s bytes).2 = held s ++ taken ∧
      ((Sink.writeAll s bytes).1 = none → taken = bytes) := by
  fun_induction Sink.writeAll s bytes with
  | case1 s => exact ⟨[], List.nil_prefix, (List.append_nil _).symm, fun _ => rfl⟩
  | case2 s b rest s' h =>
    have h_held := h_sink.write s (b :: rest)
    rw [h] at h_held
    exact ⟨[], List.nil_prefix, h_held, by simp⟩
  | case3 s b rest n s' h ih =>
    have h_held := h_sink.write s (b :: rest)
    rw [h] at h_held
    obtain ⟨taken, h_prefix, h_taken, h_all⟩ := ih
    -- What is taken now stands in front of what is taken later.
    refine ⟨b :: rest.take n ++ taken, ?_, ?_, ?_⟩
    · have h_whole : b :: rest = b :: rest.take n ++ rest.drop n := by simp
      rw [h_whole]
      exact (List.prefix_append_right_inj _).mpr h_prefix
    · rw [h_taken, h_held, List.append_assoc]
      rfl
    · intro h_none
      rw [h_all h_none]
      simp
  | case4 s b rest m s' h ih =>
    have h_held := h_sink.write s (b :: rest)
    rw [h] at h_held
    have h_same : held s' = held s := h_held.trans (List.append_nil _)
    obtain ⟨taken, h_prefix, h_taken, h_all⟩ := ih
    exact ⟨taken, h_prefix, h_same ▸ h_taken, h_all⟩
  | case5 s b rest m s' h =>
    have h_held := h_sink.write s (b :: rest)
    rw [h] at h_held
    exact ⟨[], List.nil_prefix, h_held, by simp⟩

end Sink

/-- A sink with a behaviour holds what it has taken, whatever the behaviour. -/
theorem ScriptedSink.keeps : Sink.Keeps (fun s : ScriptedSink => s.held.toList) where
  write s bytes := by
    change (s.write bytes).2.held.toList = s.held.toList ++ bytes.take (s.write bytes).1.count
    unfold ScriptedSink.write
    dsimp only
    split
    · split <;> simp [Accept.count]
    · split <;> simp [Accept.count]
  flush s := rfl

end PropertyText
