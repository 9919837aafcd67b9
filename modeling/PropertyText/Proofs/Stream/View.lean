/-
  PropertyText.Proofs.Stream.View

  Streams that cannot be told apart.  A relation between streams that look alike from outside
  (`Stream.Likeness`) is kept by every request if the steps keep it of which all reading
  consists; this is shown once, from what follows a name up to a whole sequence of requests.
  A stream whose input is seen through a view is so related to the stream itself.  Main
  statements: `Stream.Likeness.transcript` and `Stream.transcript_map`.
-/
import PropertyText.Proofs.Input.View
import PropertyText.Stream.Call

namespace PropertyText
namespace Stream

/-- What a caller sees after each of a sequence of requests: the answer, the line and the
recorded error. -/
def transcript {ι : Type} [Input ι] (s : Stream ι) :
    List Call → List (Answer × Nat × Option Error)
  | [] => []
  | call :: calls =>
    let (answer, s) := s.perform call
    (answer, s.line, s.error) :: s.transcript calls

variable {ι κ : Type}

/-- The stream with its input seen through a view. -/
def map (view : ι → κ) (s : Stream ι) : Stream κ := { s with input := view s.input }

@[simp] theorem map_ofInput (view : ι → κ) (input : ι) (comments : Bool) :
    (ofInput input comments).map view = ofInput (view input) comments := rfl

variable {view : ι → κ} (s : Stream ι)

@[simp] theorem path_map : (s.map view).path = s.path := rfl

variable [Input ι] [Input κ]

/-! ## Skipping, one step at a time -/

theorem skipTo_of_top {object : ObjectId} {rest : List ObjectId} (h : s.path = object :: rest) :
    s.skipTo object = s := by
  rw [skipTo]
  split
  · simp_all
  · rfl

omit [Input ι] in
/-- Where no object is open inside another one, only the document is. -/
theorem atTop_of_path {s : Stream ι} (h : ∀ top mid rest, s.path = top :: mid :: rest → False) :
    s.atTop = true := by
  rw [atTop]
  cases h_path : s.path with
  | nil => rfl
  | cons top rest =>
    cases rest with
    | nil => rfl
    | cons mid rest => exact absurd h_path (h top mid rest)

theorem skipTo_of_atTop (object : ObjectId) (h : s.atTop) : s.skipTo object = s := by
  rw [skipTo]
  split
  · simp_all [atTop]
  · rfl

/-- With another object innermost, one property is read away. -/
theorem skipTo_of_ne {object top : ObjectId} {rest : List ObjectId} (h : s.path = top :: rest)
    (h_top : top ≠ object) (h_inside : s.atTop = false) :
    s.skipTo object =
      if s.readProperty.2.error.isSome then s.readProperty.2
      else s.readProperty.2.skipTo object := by
  obtain ⟨mid, rest, rfl⟩ : ∃ mid rest', rest = mid :: rest' := by
    cases rest with
    | nil => simp [atTop, h] at h_inside
    | cons mid rest' => exact ⟨mid, rest', rfl⟩
  rw [skipTo]
  split
  · rename_i h_path
    obtain ⟨rfl, -⟩ := List.cons.inj (h_path.symm.trans h)
    rw [if_neg h_top]
    split
    rename_i property s' h_read
    split <;> simp_all
  · simp_all

/-! ## Walking, one step at a time -/

section

variable {s} {s' : Stream ι} {seen : List (Event Bytes)} {object : ObjectId} {name : Bytes}
  {outer : List ObjectId}

theorem walkOnto_nil : walkOnto seen s [] = (seen.reverse, s) := by rw [walkOnto]

theorem walkOnto_of_text {value : Bytes} (h : s.next object = (some ⟨name, .text value⟩, s')) :
    walkOnto seen s (object :: outer) =
      walkOnto (.field name value :: seen) s' (object :: outer) := by
  rw [walkOnto]
  split <;> simp_all

theorem walkOnto_of_object {child : ObjectId}
    (h : s.next object = (some ⟨name, .object child⟩, s')) :
    walkOnto seen s (object :: outer) =
      walkOnto (.opened name :: seen) s' (child :: object :: outer) := by
  rw [walkOnto]
  split <;> simp_all

theorem walkOnto_of_none (h : s.next object = (none, s')) :
    walkOnto seen s (object :: outer) =
      walkOnto (if outer.isEmpty then seen else .closed :: seen) s' outer := by
  rw [walkOnto]
  split <;> simp_all

end

/-! ## Streams that look alike -/

/-- Streams so related have the same error, the same open objects and the same line, and the
steps of which all reading consists keep them related. -/
structure Likeness (R : Stream ι → Stream κ → Prop) : Prop where
  error {s : Stream ι} {t : Stream κ} : R s t → t.error = s.error
  finished {s : Stream ι} {t : Stream κ} : R s t → t.finished = s.finished
  path {s : Stream ι} {t : Stream κ} : R s t → t.path = s.path
  nextId {s : Stream ι} {t : Stream κ} : R s t → t.nextId = s.nextId
  line {s : Stream ι} {t : Stream κ} : R s t → t.line = s.line
  record {s : Stream ι} {t : Stream κ} (e : Error) : R s t → R (s.record e) (t.record e)
  openObject {s : Stream ι} {t : Stream κ} : R s t → R s.openObject.2 t.openObject.2
  close {s : Stream ι} {t : Stream κ} : R s t → R s.close t.close
  finish {s : Stream ι} {t : Stream κ} :
    R s t → R { s with finished := true } { t with finished := true }
  takeToken {s : Stream ι} {t : Stream κ} :
    R s t → t.takeToken.1 = s.takeToken.1 ∧ R s.takeToken.2 t.takeToken.2

/-- The same answer from two streams, which are related behind it. -/
structure Likewise {α : Type} (R : Stream ι → Stream κ → Prop) (a : α × Stream ι)
    (b : α × Stream κ) : Prop where
  answer : b.1 = a.1
  related : R a.2 b.2

namespace Likewise

variable {R : Stream ι → Stream κ → Prop} {α β : Type} {a : α × Stream ι} {b : α × Stream κ}

omit [Input ι] [Input κ] in
/-- What is made of the answers is the same, too. -/
theorem map (h : Likewise R a b) (f : α → β) : Likewise R (a.map f id) (b.map f id) :=
  ⟨congrArg f h.answer, h.related⟩

end Likewise

namespace Likeness

variable {R : Stream ι → Stream κ → Prop} {s : Stream ι} {t : Stream κ}

/-! ### Reading -/

theorem refuse (h : Likeness R) (h_r : R s t) (cause : Malformation) :
    R (s.refuse cause) (t.refuse cause) := by
  rw [Stream.refuse, Stream.refuse, h.line h_r]
  exact h.record _ h_r

theorem violate (h : Likeness R) (h_r : R s t) (cause : Violation) :
    R (s.violate cause) (t.violate cause) := by
  rw [Stream.violate, Stream.violate, h.line h_r]
  exact h.record _ h_r

theorem atTop (h : Likeness R) (h_r : R s t) : t.atTop = s.atTop := by
  rw [Stream.atTop, Stream.atTop, h.path h_r]

/-- The tokens of both streams, which are the same. -/
theorem exists_token (h : Likeness R) (h_r : R s t) :
    ∃ token s₁ t₁, s.takeToken = (token, s₁) ∧ t.takeToken = (token, t₁) ∧ R s₁ t₁ := by
  obtain ⟨h_token, h_behind⟩ := h.takeToken h_r
  exact ⟨_, _, _, rfl, Prod.ext h_token rfl, h_behind⟩

theorem readContent (h : Likeness R) (h_r : R s t) (name : Bytes) :
    Likewise R (s.readContent name) (t.readContent name) := by
  obtain ⟨token, s₁, t₁, h_s, h_t, h_r₁⟩ := h.exists_token h_r
  unfold Stream.readContent
  rw [h_s, h_t]
  rcases token with _ | ⟨bytes⟩ | _ | _ | _ | _
  case some.colon =>
    obtain ⟨value, s₂, t₂, h_s₁, h_t₁, h_r₂⟩ := h.exists_token h_r₁
    dsimp only
    rw [h_s₁, h_t₁]
    rcases value with _ | ⟨bytes⟩ | _ | _ | _ | _
    case some.text => exact ⟨rfl, h_r₂⟩
    all_goals exact ⟨rfl, h.refuse h_r₂ _⟩
  case some.openBrace =>
    have h_id : t₁.nextId = s₁.nextId := h.nextId h_r₁
    exact ⟨by simp only [Stream.openObject, h_id], h.openObject h_r₁⟩
  all_goals exact ⟨rfl, h.refuse h_r₁ _⟩

theorem readProperty (h : Likeness R) (h_r : R s t) :
    Likewise R s.readProperty t.readProperty := by
  obtain ⟨token, s₁, t₁, h_s, h_t, h_r₁⟩ := h.exists_token h_r
  unfold Stream.readProperty
  rw [h_s, h_t]
  rcases token with _ | ⟨name⟩ | _ | _ | _ | _
  case none => exact ⟨rfl, h_r₁⟩
  case some.text => exact h.readContent h_r₁ name
  case some.closeBrace =>
    dsimp only
    rw [h.atTop h_r₁]
    split
    · exact ⟨rfl, h.refuse h_r₁ _⟩
    · exact ⟨rfl, h.close h_r₁⟩
  case some.ended =>
    dsimp only
    rw [h.atTop h_r₁]
    split
    · exact ⟨rfl, h.finish h_r₁⟩
    · exact ⟨rfl, h.refuse h_r₁ _⟩
  all_goals exact ⟨rfl, h.refuse h_r₁ _⟩

theorem skipTo (h : Likeness R) (h_r : R s t) (object : ObjectId) :
    R (s.skipTo object) (t.skipTo object) := by
  fun_induction Stream.skipTo object s generalizing t with
  | case1 s mid rest h_path =>
    rw [skipTo_of_top t ((h.path h_r).trans h_path)]
    exact h_r
  | case2 s top mid rest h_path h_top property s' h_read e h_error =>
    have h_path' : t.path = top :: mid :: rest := (h.path h_r).trans h_path
    have h_next := (h.readProperty h_r).related
    rw [h_read] at h_next
    rw [skipTo_of_ne t h_path' h_top (by simp [Stream.atTop, h_path']), h.error h_next, h_error]
    exact h_next
  | case3 s top mid rest h_path h_top property s' h_read h_error ih =>
    have h_path' : t.path = top :: mid :: rest := (h.path h_r).trans h_path
    have h_next := (h.readProperty h_r).related
    rw [h_read] at h_next
    rw [skipTo_of_ne t h_path' h_top (by simp [Stream.atTop, h_path']), h.error h_next, h_error]
    exact ih h_next
  | case4 s h_path =>
    have h_top : t.atTop = true := (h.atTop h_r).trans (atTop_of_path h_path)
    rw [skipTo_of_atTop t object h_top]
    exact h_r

theorem next (h : Likeness R) (h_r : R s t) (object : ObjectId) :
    Likewise R (s.next object) (t.next object) := by
  unfold Stream.next
  rw [h.error h_r, h.finished h_r, h.path h_r]
  split
  · exact ⟨rfl, h_r⟩
  · have h_skip := h.skipTo h_r object
    dsimp only
    rw [h.error h_skip]
    split
    · exact ⟨rfl, h_skip⟩
    · exact h.readProperty h_skip

/-! ### Walking and loading -/

theorem walkOnto (h : Likeness R) (h_r : R s t) (seen : List (Event Bytes))
    (path : List ObjectId) :
    Likewise R (Stream.walkOnto seen s path) (Stream.walkOnto seen t path) := by
  fun_induction Stream.walkOnto seen s path generalizing t with
  | case1 seen s =>
    rw [walkOnto_nil]
    exact ⟨rfl, h_r⟩
  | case2 seen s object outer name value s' h_next ih =>
    obtain ⟨h_answer, h_behind⟩ := h.next h_r object
    rw [h_next] at h_answer h_behind
    rw [walkOnto_of_text (Prod.ext h_answer rfl)]
    exact ih h_behind
  | case3 seen s object outer name child s' h_next ih =>
    obtain ⟨h_answer, h_behind⟩ := h.next h_r object
    rw [h_next] at h_answer h_behind
    rw [walkOnto_of_object (Prod.ext h_answer rfl)]
    exact ih h_behind
  | case4 seen s object outer s' h_next ih =>
    obtain ⟨h_answer, h_behind⟩ := h.next h_r object
    rw [h_next] at h_answer h_behind
    rw [walkOnto_of_none (Prod.ext h_answer rfl)]
    simpa only [dite_eq_ite] using ih h_behind

theorem walk (h : Likeness R) (h_r : R s t) (object : ObjectId) :
    Likewise R (s.walk object) (t.walk object) :=
  h.walkOnto h_r [] [object]

theorem take (h : Likeness R) (h_r : R s t) (object : ObjectId) (count : Nat) :
    Likewise R (s.take object count) (t.take object count) := by
  induction count generalizing s t with
  | zero => exact ⟨rfl, h_r⟩
  | succ n ih =>
    obtain ⟨h_answer, h_behind⟩ := h.next h_r object
    rw [Stream.take, Stream.take]
    rcases h_s : s.next object with ⟨_ | p, s₁⟩
    · rw [h_s] at h_answer h_behind
      rw [show t.next object = (none, _) from Prod.ext h_answer rfl]
      exact ⟨rfl, h_behind⟩
    · rw [h_s] at h_answer h_behind
      rw [show t.next object = (some p, _) from Prod.ext h_answer rfl]
      exact (ih h_behind).map (p :: ·)

theorem readFields (h : Likeness R) (h_r : R s t) (object : ObjectId) :
    Likewise R (s.readFields object) (t.readFields object) :=
  (h.walk h_r object).map fun events => Fields.ofEvents (events.map Event.decoded)

theorem load (h : Likeness R) (h_r : R s t) : Likewise R s.load t.load := by
  obtain ⟨h_fields, h_behind⟩ := h.readFields h_r rootId
  unfold Stream.load
  dsimp only
  rw [h_fields, h.error h_behind]
  split
  · exact ⟨rfl, h_behind⟩
  · exact ⟨rfl, h_behind⟩

/-! ### Asking properties -/

theorem value (h : Likeness R) (h_r : R s t) (p : Property) :
    Likewise R (s.value p) (t.value p) := by
  unfold Stream.value
  split
  · exact ⟨rfl, h_r⟩
  · exact ⟨rfl, h.violate h_r _⟩

theorem inner (h : Likeness R) (h_r : R s t) (p : Property) :
    Likewise R (s.inner p) (t.inner p) := by
  unfold Stream.inner
  split
  · exact ⟨rfl, h_r⟩
  · exact ⟨rfl, h.violate h_r _⟩

theorem valueText (h : Likeness R) (h_r : R s t) (p : Property) :
    Likewise R (s.valueText p) (t.valueText p) :=
  (h.value h_r p).map Utf8.decode

theorem parse (h : Likeness R) (h_r : R s t) (p : Property) (type : ScalarType) :
    Likewise R (s.parse p type) (t.parse p type) := by
  obtain ⟨h_text, h_behind⟩ := h.valueText h_r p
  unfold Stream.parse
  dsimp only
  rw [h_text]
  split
  · exact ⟨rfl, h_behind⟩
  · exact ⟨rfl, h.violate h_behind _⟩

theorem choose (h : Likeness R) (h_r : R s t) (p : Property) (names : List String) :
    Likewise R (s.choose p names) (t.choose p names) := by
  obtain ⟨h_text, h_behind⟩ := h.valueText h_r p
  unfold Stream.choose
  dsimp only
  rw [h_text]
  split
  · exact ⟨rfl, h_behind⟩
  · exact ⟨rfl, h.violate h_behind _⟩

theorem check (h : Likeness R) (h_r : R s t) (message : String) (condition : Bool) :
    R (s.check message condition) (t.check message condition) := by
  unfold Stream.check
  split
  · exact h_r
  · exact h.violate h_r _

/-! ### Whole sequences of requests -/

theorem perform (h : Likeness R) (h_r : R s t) (call : Call) :
    Likewise R (s.perform call) (t.perform call) := by
  cases call with
  | next object => exact (h.next h_r object).map Answer.property
  | take object count => exact (h.take h_r object count).map Answer.properties
  | walk object => exact (h.walk h_r object).map Answer.events
  | readFields object => exact (h.readFields h_r object).map Answer.fields
  | load => exact (h.load h_r).map Answer.loaded
  | value p => exact (h.value h_r p).map Answer.text
  | inner p => exact (h.inner h_r p).map Answer.object
  | parse p type => exact (h.parse h_r p type).map Answer.scalar
  | choose p names => exact (h.choose h_r p names).map Answer.place
  | check message condition => exact ⟨rfl, h.check h_r message condition⟩

theorem performAll (h : Likeness R) (h_r : R s t) (calls : List Call) :
    Likewise R (s.performAll calls) (t.performAll calls) := by
  induction calls generalizing s t with
  | nil => exact ⟨rfl, h_r⟩
  | cons call calls ih =>
    obtain ⟨h_answer, h_behind⟩ := h.perform h_r call
    obtain ⟨h_answers, h_end⟩ := ih h_behind
    rw [Stream.performAll, Stream.performAll]
    dsimp only
    rw [h_answer, h_answers]
    exact ⟨rfl, h_end⟩

/-- Streams that look alike answer every sequence of requests alike, with the same line and the
same error after each. -/
theorem transcript (h : Likeness R) (h_r : R s t) (calls : List Call) :
    t.transcript calls = s.transcript calls := by
  induction calls generalizing s t with
  | nil => rfl
  | cons call calls ih =>
    obtain ⟨h_answer, h_behind⟩ := h.perform h_r call
    rw [Stream.transcript, Stream.transcript]
    dsimp only
    rw [h_answer, h.line h_behind, h.error h_behind, ih h_behind]

end Likeness

/-! ## Reading through a view -/

section

variable {s : Stream ι} (h : Input.View view)
include h

theorem takeToken_map : (s.map view).takeToken = s.takeToken.map id (map view) := by
  unfold takeToken
  rw [show (s.map view).error = s.error from rfl]
  split
  · rfl
  · rw [show Token.scan (s.map view).comments (s.map view).mode (s.map view).input = _ from
      Token.scan_view h s.comments s.mode s.input]
    obtain ⟨result, input⟩ := Token.scan s.comments s.mode s.input
    cases result with
    | ok token => rfl
    | error fault =>
      change (none, record _ (fault.onLine (Input.line (view input)))) = _
      rw [h.line]
      rfl

/-- A stream seen through a view looks like the stream itself. -/
theorem likeness_map : Likeness fun (s : Stream ι) t => t = s.map view where
  error := by rintro s t rfl; rfl
  finished := by rintro s t rfl; rfl
  path := by rintro s t rfl; rfl
  nextId := by rintro s t rfl; rfl
  line := by rintro s t rfl; exact h.line s.input
  record := by rintro s t e rfl; rfl
  openObject := by rintro s t rfl; rfl
  close := by rintro s t rfl; rfl
  finish := by rintro s t rfl; rfl
  takeToken := by
    rintro s t rfl
    rw [takeToken_map h]
    exact ⟨rfl, rfl⟩

theorem readProperty_map :
    (s.map view).readProperty = s.readProperty.map id (map view) := by
  obtain ⟨h_answer, h_behind⟩ := (likeness_map h).readProperty (rfl : s.map view = _)
  exact Prod.ext h_answer h_behind

theorem next_map (object : ObjectId) :
    (s.map view).next object = (s.next object).map id (map view) := by
  obtain ⟨h_answer, h_behind⟩ := (likeness_map h).next (rfl : s.map view = _) object
  exact Prod.ext h_answer h_behind

theorem take_map (object : ObjectId) (count : Nat) :
    (s.map view).take object count = (s.take object count).map id (map view) := by
  obtain ⟨h_answer, h_behind⟩ := (likeness_map h).take (rfl : s.map view = _) object count
  exact Prod.ext h_answer h_behind

theorem walk_map (object : ObjectId) :
    (s.map view).walk object = (s.walk object).map id (map view) := by
  obtain ⟨h_answer, h_behind⟩ := (likeness_map h).walk (rfl : s.map view = _) object
  exact Prod.ext h_answer h_behind

theorem load_map : (s.map view).load = s.load.map id (map view) := by
  obtain ⟨h_answer, h_behind⟩ := (likeness_map h).load (rfl : s.map view = _)
  exact Prod.ext h_answer h_behind

/-- Seen through a view, a stream answers every sequence of requests as before. -/
theorem transcript_map (calls : List Call) :
    (s.map view).transcript calls = s.transcript calls :=
  (likeness_map h).transcript rfl calls

theorem performAll_map (calls : List Call) :
    (s.map view).performAll calls = (s.performAll calls).map id (map view) := by
  obtain ⟨h_answers, h_behind⟩ := (likeness_map h).performAll (rfl : s.map view = _) calls
  exact Prod.ext h_answers h_behind

end
end Stream
end PropertyText
