/-
  PropertyText.Proofs.Except

  Computations that can fail, where each of their steps is known to succeed.
-/
import Mathlib.Data.List.Forall2

namespace PropertyText

variable {α β ε : Type}

@[simp] theorem ok_bind (a : α) (f : α → Except ε β) : (Except.ok a >>= f) = f a := rfl

/-- Two steps succeed if both of them do. -/
theorem bind_eq_ok_iff {x : Except ε α} {f : α → Except ε β} {b : β} :
    (x >>= f) = .ok b ↔ ∃ a, x = .ok a ∧ f a = .ok b := by
  cases x with
  | error e => simp [bind, Except.bind]
  | ok a => simp

theorem bind_eq_error_iff {x : Except ε α} {f : α → Except ε β} {e : ε} :
    (x >>= f) = .error e ↔ x = .error e ∨ ∃ a, x = .ok a ∧ f a = .error e := by
  cases x with
  | error e' => simp [bind, Except.bind]
  | ok a => simp

theorem pure_ne_error {a : α} {e : ε} : (pure a : Except ε α) ≠ .error e := by
  simp [pure, Except.pure]

theorem pure_eq_ok_iff {a b : α} : (pure a : Except ε α) = .ok b ↔ b = a :=
  ⟨fun h => (Except.ok.inj h).symm, fun h => congrArg Except.ok h.symm⟩

/-! ## Up to errors -/

/-- Two computations succeed alike if they have the same results. -/
theorem toOption_eq_iff {x y : Except ε α} :
    x.toOption = y.toOption ↔ ∀ a, x = .ok a ↔ y = .ok a := by
  cases x with
  | error e =>
    cases y with
    | error e' => simp [Except.toOption]
    | ok b => simp [Except.toOption]
  | ok a =>
    cases y with
    | error e => simp [Except.toOption]
    | ok b =>
      constructor
      · intro h c
        rw [Option.some.inj h]
      · intro h
        rw [(h a).mp rfl]

theorem toOption_bind (x : Except ε α) (f : α → Except ε β) :
    (x >>= f).toOption = x.toOption.bind fun a => (f a).toOption := by
  cases x <;> rfl

theorem toOption_mapM (f : α → Except ε β) (as : List α) :
    (as.mapM f).toOption = as.mapM fun a => (f a).toOption := by
  induction as with
  | nil => rfl
  | cons a as ih =>
    simp only [List.mapM_cons, toOption_bind, ih]
    rfl

/-! ## Lists -/

/-- Two lists are put together if there are both of them. -/
theorem append_eq_ok_iff {x y : Except ε (List α)} {l : List α} :
    (do let first ← x; let rest ← y; return first ++ rest) = .ok l ↔
      ∃ first rest, x = .ok first ∧ y = .ok rest ∧ l = first ++ rest := by
  simp only [bind_eq_ok_iff, pure_eq_ok_iff]
  constructor
  · rintro ⟨first, h_x, rest, h_y, rfl⟩
    exact ⟨first, rest, h_x, h_y, rfl⟩
  · rintro ⟨first, rest, h_x, h_y, rfl⟩
    exact ⟨first, h_x, rest, h_y, rfl⟩

/-- A list is mapped to the results of its elements. -/
theorem mapM_eq_ok {f : α → Except ε β} {as : List α} {bs : List β}
    (h : List.Forall₂ (fun b a => f a = .ok b) bs as) : as.mapM f = .ok bs := by
  induction h with
  | nil => rfl
  | cons h_head _ ih =>
    rw [List.mapM_cons, h_head, ih]
    rfl

/-- A list is mapped if each of its elements is. -/
theorem mapM_eq_ok_iff {f : α → Except ε β} {as : List α} {bs : List β} :
    as.mapM f = .ok bs ↔ List.Forall₂ (fun b a => f a = .ok b) bs as := by
  refine ⟨fun h => ?_, mapM_eq_ok⟩
  induction as generalizing bs with
  | nil =>
    rw [List.mapM_nil, pure_eq_ok_iff] at h
    exact List.forall₂_nil_right_iff.mpr h
  | cons a as ih =>
    simp only [List.mapM_cons, bind_eq_ok_iff, pure_eq_ok_iff] at h
    obtain ⟨b, h_head, rest, h_rest, rfl⟩ := h
    exact .cons h_head (ih h_rest)

/-- What each element of a list has, the elements have one after the other. -/
theorem exists_forall₂ {r : α → β → Prop} {as : List α} (h : ∀ a ∈ as, ∃ b, r a b) :
    ∃ bs, List.Forall₂ r as bs := by
  induction as with
  | nil => exact ⟨[], .nil⟩
  | cons a as ih =>
    obtain ⟨b, h_b⟩ := h a List.mem_cons_self
    obtain ⟨bs, h_bs⟩ := ih fun a h_mem => h a (List.mem_cons_of_mem _ h_mem)
    exact ⟨b :: bs, .cons h_b h_bs⟩

/-- Lists of one length are mapped alike if their elements are. -/
theorem mapM_congr_zip {f g : α → Option β} {as bs : List α} (h_length : as.length = bs.length)
    (h : ∀ pair ∈ as.zip bs, f pair.1 = g pair.2) : as.mapM f = bs.mapM g := by
  induction as generalizing bs with
  | nil =>
    obtain rfl : bs = [] := List.length_eq_zero_iff.mp h_length.symm
    rfl
  | cons a as ih =>
    cases bs with
    | nil => cases h_length
    | cons b bs =>
      rw [List.zip_cons_cons, List.forall_mem_cons] at h
      rw [List.mapM_cons, List.mapM_cons, h.1, ih (Nat.succ.inj h_length) h.2]

theorem forall₂_congr_left {r s : α → β → Prop} {as : List α} {bs : List β}
    (h : ∀ a ∈ as, ∀ b, r a b ↔ s a b) : List.Forall₂ r as bs ↔ List.Forall₂ s as bs := by
  induction as generalizing bs with
  | nil => rw [List.forall₂_nil_left_iff, List.forall₂_nil_left_iff]
  | cons a as ih =>
    rw [List.forall_mem_cons] at h
    simp only [List.forall₂_cons_left_iff, h.1, ih h.2]

theorem exists_of_forall₂ {r : α → β → Prop} {as : List α} {bs : List β}
    (h : List.Forall₂ r as bs) : ∀ a ∈ as, ∃ b, r a b := by
  induction h with
  | nil => simp
  | cons h_head _ ih => exact List.forall_mem_cons.mpr ⟨⟨_, h_head⟩, ih⟩

end PropertyText
