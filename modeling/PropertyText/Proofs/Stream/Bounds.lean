/-
  PropertyText.Proofs.Stream.Bounds

  Reading ends, within a bound.  Whatever is requested, the looks and the steps that are made
  are at most three for each byte that has been stepped over, and one more; every property that
  is handed out, and every object that is open, takes at least two bytes (`Stream.Bounded`).  A
  walk through the whole document makes a call for each property, for each object and for the
  document (`Stream.walkCalls`).  Main statement: `Stream.performAll_bounded`.
-/
import PropertyText.Proofs.Stream.Demand
import PropertyText.Proofs.Stream.OpenObjects
import PropertyText.Source.Scripted

namespace PropertyText

/-! ## Asking again -/

theorem Source.snd_brought_succ {σ : Type} [Source σ] (s : σ) (size n : Nat) :
    (brought s size (n + 1)).2 = (brought (fill s size).2 size n).2 := by
  induction n with
  | zero => rfl
  | succ n ih => exact congrArg (fun s => (fill s size).2) ih

/-- Asking again ends: there are only so many interruptions, and then an answer is given. -/
theorem Retrying.exists_askAgain_eq {σ : Type} [Source σ] (s : σ) (size : Nat) :
    ∃ n ≤ Source.supply s,
      (∀ k < n, ∃ message,
        (Source.fill (Source.brought s size k).2 size).1 = .interrupted message) ∧
      askAgain s size = Source.fill (Source.brought s size n).2 size := by
  fun_induction askAgain s size with
  | case1 s message s' h_fill ih =>
    obtain ⟨n, h_n, h_interrupted, h_answer⟩ := ih
    have h_behind (k : Nat) : (Source.brought s size (k + 1)).2 = (Source.brought s' size k).2 := by
      rw [Source.snd_brought_succ, h_fill]
    refine ⟨n + 1, ?_, ?_, ?_⟩
    · have := Source.supply_of_interrupted h_fill
      omega
    · intro k h_k
      cases k with
      | zero => exact ⟨message, congrArg Prod.fst h_fill⟩
      | succ k =>
        rw [h_behind]
        exact h_interrupted k (Nat.lt_of_succ_lt_succ h_k)
    · rw [h_behind, h_answer]
  | case2 s bytes s' h_fill | case3 s message s' h_fill =>
    exact ⟨0, Nat.zero_le _, fun k h_k => absurd h_k (Nat.not_lt_zero k), h_fill.symm⟩

/-! ## What a token takes -/

namespace Token

variable {σ : Type} [Source σ] {comments : Bool} {mode : Mode} {t t' : Traced σ}

/-- Each byte is looked at and stepped over; one more may be looked at. -/
theorem exists_acts_scan (comments : Bool) (mode : Mode) (t : Traced σ) :
    ∃ acts, (scan comments mode t).2.log = t.log ++ acts ∧
      acts.length ≤ 2 * (Log.taken acts).length + 1 := by
  fun_induction scan comments mode t with
  | case1 mode t t' h_peek | case2 mode t m t' h_peek | case5 mode t b t' h_peek token h_step =>
    obtain ⟨bytes, h_log⟩ := Traced.log_of_peek h_peek
    exact ⟨_, h_log, by simp⟩
  | case3 mode t b t' h_peek next h_step ih =>
    obtain ⟨bytes, h_log⟩ := Traced.log_of_peek h_peek
    obtain ⟨acts, h_acts, h_length⟩ := ih
    rw [Traced.log_advance h_peek, h_log, List.append_assoc, List.append_assoc] at h_acts
    refine ⟨_, h_acts, ?_⟩
    simp only [Log.taken_append, Log.taken_looked, Log.taken_took, List.length_append,
      List.length_singleton, List.length_nil]
    omega
  | case4 mode t b t' h_peek token h_step | case6 mode t b t' h_peek cause h_step =>
    obtain ⟨bytes, h_log⟩ := Traced.log_of_peek h_peek
    refine ⟨[.looked bytes (.byte b), .took b], ?_, Nat.le_succ 2⟩
    rw [Traced.log_advance h_peek, h_log, List.append_assoc]
    rfl

variable {source : σ} {size : Nat} {whole : Bytes}

/-- A token that is no end of the text takes a byte. -/
theorem taken_scan_lt (h : Traced.Kept source size whole t) (h_mode : mode.IsBetween)
    {token : Token} (h_scan : scan comments mode t = (.ok token, t')) (h_token : token ≠ .ended) :
    (Log.taken t.log).length < (Log.taken t'.log).length := by
  have h_view := scan_view Traced.view_unread comments mode t
  have h_behind := h.scan comments mode
  rw [h_scan] at h_view h_behind
  have h_left := left_scan_lt h_mode h_view h_token
  have h_whole := congrArg List.length (h_behind.whole.trans h.whole.symm)
  simp only [List.length_append] at h_whole
  change t'.reader.unread.bytes.length < t.reader.unread.bytes.length at h_left
  omega

/-- No more than three acts are needed for each byte of some tokens. -/
theorem Scans.exists_acts {tokens : List Token} (h_scans : Scans comments mode t tokens t')
    (h_mode : mode.IsBetween) (h : Traced.Kept source size whole t) :
    ∃ acts, t'.log = t.log ++ acts ∧ tokens.length ≤ (Log.taken acts).length ∧
      acts.length ≤ 3 * (Log.taken acts).length := by
  induction h_scans with
  | nil => exact ⟨[], (List.append_nil _).symm, Nat.le_refl _, Nat.le_refl _⟩
  | @cons mode t t₁ t' token tokens h_token h_scan _ ih =>
    obtain ⟨first, h_first, h_acts⟩ := exists_acts_scan comments mode t
    have h_behind := h.scan comments mode
    rw [h_scan] at h_first h_behind
    have h_taken := taken_scan_lt h h_mode h_scan h_token
    rw [h_first, Log.taken_append, List.length_append] at h_taken
    obtain ⟨acts, h_log, h_tokens, h_rest⟩ := ih (Or.inr rfl) h_behind
    -- The look that finds the end of a bare string is made up for by a byte of the string.
    refine ⟨first ++ acts, by rw [h_log, h_first, List.append_assoc], ?_, ?_⟩
    · rw [Log.taken_append, List.length_append, List.length_cons]
      omega
    · rw [Log.taken_append, List.length_append, List.length_append]
      omega

end Token

namespace Stream

variable {σ : Type} [Source σ] {source : σ} {options : ReaderOptions} {s s' : Stream (Traced σ)}

/-! ## What a property takes -/

/-- How many bytes have been stepped over. -/
def consumed (s : Stream (Traced σ)) : Nat := (Log.taken s.input.log).length

/-- A property is a name and what it holds. -/
theorem two_le_length_tokens (p : Property) : 2 ≤ p.event.tokens.length := by
  obtain ⟨name, value | object⟩ := p
  · exact Nat.le_succ 2
  · exact Nat.le_refl 2

/-- Reading takes two bytes for a property and three acts for a byte.  Where it stops, one more
look may be made. -/
theorem Logged.readProperty (h : Logged source options s) (h_run : s.Running) :
    s.consumed + 2 * s.readProperty.1.toList.length ≤ s.readProperty.2.consumed ∧
      s.readProperty.2.input.log.length + 3 * s.consumed ≤
        s.input.log.length + 3 * s.readProperty.2.consumed +
          if s.readProperty.2.Running then 0 else 1 := by
  obtain ⟨tokens, ⟨-, t, h_scans, h_end⟩, h_tokens⟩ := takes_readProperty h_run.1
  obtain ⟨acts, h_acts, h_taken, h_length⟩ := h_scans.exists_acts s.isBetween_mode h.kept
  have h_property : 2 * s.readProperty.1.toList.length ≤ tokens.length := by
    cases h_some : s.readProperty.1 with
    | none => exact Nat.zero_le _
    | some p => exact h_tokens p h_some ▸ two_le_length_tokens p
  unfold consumed
  rcases h_end with h_input | ⟨h_stop, mode, h_mode, h_input⟩
  · rw [h_input, h_acts, Log.taken_append, List.length_append, List.length_append]
    omega
  · -- An attempt that comes to no token may take no byte at all; it is the last one.
    obtain ⟨last, h_last, h_more⟩ := Token.exists_acts_scan s.comments mode t
    rw [h_input, h_last, h_acts, if_neg h_stop]
    simp only [Log.taken_append, List.length_append]
    omega

/-- So many bytes have been stepped over, or more. -/
theorem Logged.reached (source : σ) (options : ReaderOptions) (n : Nat) :
    Invariant fun s : Stream (Traced σ) => Logged source options s ∧ n ≤ s.consumed where
  read h_run h :=
    ⟨(invariant source options).read h_run h.1,
      Nat.le_trans h.2 (Nat.le_of_add_right_le (h.1.readProperty h_run).1)⟩
  violate cause h := ⟨(invariant source options).violate cause h.1, h.2⟩

/-! ### What is handed out -/

section

variable {ι : Type} [Input ι]

/-- The properties that are handed out to some calls. -/
def handedOut (s : Stream ι) (calls : List Call) : List Property :=
  (s.performAll calls).1.flatMap Answer.handedOut

theorem handedOut_cons (s : Stream ι) (call : Call) (calls : List Call) :
    s.handedOut (call :: calls) =
      (s.perform call).1.handedOut ++ (s.perform call).2.handedOut calls := rfl

end

namespace Logged

theorem next (h : Logged source options s) (object : ObjectId) :
    s.consumed + 2 * (s.next object).1.toList.length ≤ (s.next object).2.consumed := by
  rcases (reached source options s.consumed).next_cases ⟨h, Nat.le_refl _⟩ object with
    ⟨s₁, h_s₁, h_next⟩ | ⟨s₁, h_s₁, h_run, h_next⟩
  · rw [h_next]
    exact h_s₁.2
  · have h_read := (h_s₁.1.readProperty h_run).1
    rw [h_next]
    omega

theorem take (h : Logged source options s) (object : ObjectId) (count : Nat) :
    s.consumed + 2 * (s.take object count).1.length ≤ (s.take object count).2.consumed := by
  induction count generalizing s with
  | zero => exact Nat.le_refl _
  | succ count ih =>
    have h_first := h.next object
    have h_behind := (invariant source options).next h object
    rw [Stream.take]
    rcases h_next : s.next object with ⟨_ | p, s₁⟩
    · rw [h_next] at h_first
      exact h_first
    · rw [h_next] at h_first h_behind
      have h_rest := ih h_behind
      dsimp only [Option.toList_some, List.length_cons, List.length_nil] at h_first h_rest ⊢
      omega

theorem perform (h : Logged source options s) (call : Call) :
    s.consumed + 2 * (s.perform call).1.handedOut.length ≤ (s.perform call).2.consumed := by
  cases call with
  | next object => exact h.next object
  | take object count => exact h.take object count
  | walk | readFields | load | value | inner | parse | choose | check =>
    exact ((reached source options s.consumed).perform ⟨h, Nat.le_refl _⟩ _).2

/-- Every property that is handed out takes two bytes. -/
theorem performAll (h : Logged source options s) (calls : List Call) :
    s.consumed + 2 * (s.handedOut calls).length ≤ (s.performAll calls).2.consumed := by
  induction calls generalizing s with
  | nil => exact Nat.le_refl _
  | cons call calls ih =>
    have h_first := h.perform call
    have h_rest := ih ((invariant source options).perform h call)
    rw [handedOut_cons, performAll_cons, List.length_append]
    dsimp only
    omega

end Logged

/-! ### What is done, and what is open -/

/-- How much has been done, and how many objects are open, by the bytes that have been stepped
over. -/
structure Bounded (source : σ) (options : ReaderOptions) (s : Stream (Traced σ)) : Prop extends
    Logged source options s where
  acts : s.input.log.length ≤ 3 * s.consumed + if s.Running then 0 else 1
  depth : 2 * s.path.length ≤ s.consumed + 2

theorem bounded_traced (source : σ) (options : ReaderOptions) :
    Bounded source options (traced source options) where
  toLogged := logged_traced source options
  acts := Nat.zero_le _
  depth := Nat.le_refl 2

omit [Source σ] in
/-- No object is open further but the one of the property that is read. -/
theorem Step.length_path_le {property : Option Property} {event : Option (Event Bytes)}
    (h : Step s property event s') : s'.path.length ≤ s.path.length + property.toList.length := by
  cases h with
  | text name value input => exact Nat.le_succ _
  | opened name input => exact Nat.le_refl _
  | closed input h_top => simp [close]
  | finished input h_top | failed input e => exact Nat.le_refl _

theorem Bounded.invariant (source : σ) (options : ReaderOptions) :
    Invariant (Bounded source options) where
  read := by
    intro s h_run h
    obtain ⟨h_taken, h_acts⟩ := h.toLogged.readProperty h_run
    obtain ⟨property, event, s', h_read, -, h_step⟩ := step_cases h_run
    have h_path := h_step.length_path_le
    have h_before := h.acts
    have h_depth := h.depth
    rw [if_pos h_run] at h_before
    rw [h_read] at h_taken h_acts
    have h_logged := (Logged.invariant source options).read h_run h.toLogged
    rw [h_read] at h_logged ⊢
    dsimp only at h_taken h_acts h_logged ⊢
    exact ⟨h_logged, by omega, by omega⟩
  violate := by
    intro s cause h
    refine ⟨(Logged.invariant source options).violate cause h.toLogged, ?_, h.depth⟩
    rw [if_neg (not_running_violate s cause)]
    refine Nat.le_trans h.acts (Nat.add_le_add_left ?_ _)
    split
    · exact Nat.zero_le 1
    · exact Nat.le_refl 1

/-! ## A walk through the whole document -/

section

variable {ι : Type} [Input ι]

/-- The calls of a caller who asks the innermost of the given objects for its properties, and
first those objects that are handed out, and who goes on around an object that has no further
property. -/
def walkCalls (s : Stream ι) (path : List ObjectId) : List Call :=
  match path with
  | [] => []
  | id :: outer =>
    .next id ::
      match _h : s.next id with
      | (some ⟨_, .text _⟩, s') => walkCalls s' (id :: outer)
      | (some ⟨_, .object child⟩, s') => walkCalls s' (child :: id :: outer)
      | (none, s') => walkCalls s' outer
termination_by 2 * Input.left s.input + path.length
decreasing_by
  · have := left_next_lt _h
    simp only [List.length_cons]
    omega
  · have := left_next_lt _h
    simp only [List.length_cons]
    omega
  · have := left_next_le s id
    simp only [_h] at this
    simp only [List.length_cons]
    omega

variable {s s' : Stream ι} {name : Bytes} {object : ObjectId} {outer : List ObjectId}

theorem walkCalls_of_text {value : Bytes} (h : s.next object = (some ⟨name, .text value⟩, s')) :
    s.walkCalls (object :: outer) = .next object :: s'.walkCalls (object :: outer) := by
  rw [walkCalls]
  split <;> simp_all

theorem walkCalls_of_object {child : ObjectId}
    (h : s.next object = (some ⟨name, .object child⟩, s')) :
    s.walkCalls (object :: outer) = .next object :: s'.walkCalls (child :: object :: outer) := by
  rw [walkCalls]
  split <;> simp_all

theorem walkCalls_of_none (h : s.next object = (none, s')) :
    s.walkCalls (object :: outer) = .next object :: s'.walkCalls outer := by
  rw [walkCalls]
  split <;> simp_all

theorem performAll_next {property : Option Property} (h : s.next object = (property, s'))
    (calls : List Call) :
    (s.performAll (.next object :: calls)).2 = (s'.performAll calls).2 ∧
      s.handedOut (.next object :: calls) = property.toList ++ s'.handedOut calls := by
  rw [performAll_cons, handedOut_cons, perform, h]
  exact ⟨rfl, rfl⟩

/-- The calls of a walk lead to where the walk ends.  There is one for each property, for each
object among them and for each of the objects that it begins with. -/
theorem performAll_walkCalls (s : Stream ι) (path : List ObjectId) (seen : List (Event Bytes)) :
    let handed := s.handedOut (s.walkCalls path)
    (s.performAll (s.walkCalls path)).2 = (walkOnto seen s path).2 ∧
      (walkOnto seen s path).1.filter (· ≠ .closed) =
        seen.reverse.filter (· ≠ .closed) ++ handed.map Property.event ∧
      (s.walkCalls path).length =
        handed.length + handed.countP Property.isObject + path.length := by
  fun_induction walkOnto seen s path with
  | case1 seen s =>
    rw [walkCalls]
    simp [performAll, handedOut]
  | case2 seen s object outer name value s' h_next ih =>
    obtain ⟨h_behind, h_handed⟩ := performAll_next h_next (s'.walkCalls (object :: outer))
    obtain ⟨h_end, h_events, h_length⟩ := ih
    rw [walkCalls_of_text h_next, h_behind, h_handed]
    refine ⟨h_end, ?_, ?_⟩
    · rw [h_events]
      simp [Property.event]
    · rw [List.length_cons, h_length]
      simp [Property.isObject]
      omega
  | case3 seen s object outer name child s' h_next ih =>
    obtain ⟨h_behind, h_handed⟩ := performAll_next h_next (s'.walkCalls (child :: object :: outer))
    obtain ⟨h_end, h_events, h_length⟩ := ih
    rw [walkCalls_of_object h_next, h_behind, h_handed]
    refine ⟨h_end, ?_, ?_⟩
    · rw [h_events]
      simp [Property.event]
    · rw [List.length_cons, h_length]
      simp [Property.isObject, List.countP_cons]
      omega
  | case4 seen s object outer s' h_next ih =>
    obtain ⟨h_behind, h_handed⟩ := performAll_next h_next (s'.walkCalls outer)
    obtain ⟨h_end, h_events, h_length⟩ := ih
    rw [dite_eq_ite] at h_end h_events
    rw [walkCalls_of_none h_next, h_behind, h_handed]
    refine ⟨h_end, ?_, ?_⟩
    · rw [h_events]
      split <;> simp
    · rw [List.length_cons, h_length]
      simp
      omega

/-- A walk ends where the object that it began with has no further property; if that is the
document, nothing more is read. -/
theorem stopped_walkOnto {s : Stream ι} {before seen : List (Event Bytes)}
    {path : List ObjectId} (h_s : Ordered before s) (h_path : path.getLast? = some rootId) :
    ¬(walkOnto seen s path).2.Running := by
  fun_induction walkOnto seen s path generalizing before with
  | case1 seen s => cases h_path
  | case2 seen s object outer name value s' h_next ih
  | case3 seen s object outer name child s' h_next ih =>
    obtain ⟨events, h_trail⟩ := Trail.next s object
    rw [h_next] at h_trail
    exact ih (h_trail.ordered h_s) (by simpa using h_path)
  | case4 seen s object outer s' h_next ih =>
    obtain ⟨events, h_trail⟩ := Trail.next s object
    rw [h_next] at h_trail
    have h_s' := h_trail.ordered h_s
    cases outer with
    | nil =>
      obtain rfl : object = rootId := by simpa using h_path
      rw [walkOnto_nil]
      have h_closed := not_open_of_next_none h_s (congrArg Prod.fst h_next)
      rw [h_next] at h_closed
      exact h_closed.resolve_right (not_not_intro (List.mem_of_getLast? h_s'.outermost))
    | cons around outer => exact ih h_s' (by simpa using h_path)

end

/-! ## The bounds -/

/-- Reading always ends, whatever is requested and in whatever pieces the text is delivered.  A
log of all that is done does not change the answers.  At any time, also in the midst of a request,
no more bytes have been stepped over than are delivered, the log has at most three acts for each
of them and one more, and at most half as many objects are open in the document; nor are more
properties than that handed out.  A walk through the rest of the document makes as many calls as
there are properties and objects in it, and one more; then the document has no further property
for good.  A source that is asked again after each interruption answers behind those that it can
still have. -/
theorem performAll_bounded (source : σ) (options : ReaderOptions) (calls : List Call) :
    let start := traced source options
    let s := (start.performAll calls).2
    let walk := s.walkCalls [rootId]
    let handed := s.handedOut walk
    ((ofSource source options).performAll calls =
        ((start.performAll calls).1, s.map Traced.reader) ∧
      ∃ events, Trail start events s) ∧
    (∀ events later, Trail start events later →
      later.consumed ≤ (Source.delivered source (max options.bufferSize 1)).1.length ∧
      later.input.log.length ≤ 3 * later.consumed + 1 ∧
      2 * (later.path.length - 1) ≤ later.consumed) ∧
    2 * (start.handedOut calls).length ≤ s.consumed ∧
    (walk.length = handed.length + handed.countP Property.isObject + 1 ∧
      handed.map Property.event = (s.walk rootId).1.filter (· ≠ .closed) ∧
      ∀ more, let behind := ((s.performAll walk).2.performAll more).2
        behind.next rootId = (none, behind)) ∧
    ∀ size, ∃ n ≤ Source.supply source,
      (∀ k < n, ∃ message,
        (Source.fill (Source.brought source size k).2 size).1 = .interrupted message) ∧
      Retrying.askAgain source size = Source.fill (Source.brought source size n).2 size := by
  intro start s walk handed
  obtain ⟨events, h_trail⟩ := Trail.performAll start calls
  obtain ⟨h_end, h_events, h_length⟩ := performAll_walkCalls s [rootId] []
  refine ⟨⟨performAll_map (s := start) Traced.view_reader calls, events, h_trail⟩, ?_, ?_,
    ⟨h_length, h_events.symm, ?_⟩, Retrying.exists_askAgain_eq source⟩
  · intro events later h_later
    have h_bounded : Bounded source options later :=
      h_later.keeps (Bounded.invariant source options) (bounded_traced source options)
    have h_acts := h_bounded.acts
    have h_depth := h_bounded.depth
    have h_whole := congrArg List.length h_bounded.kept.whole
    rw [List.length_append] at h_whole
    refine ⟨?_, ?_, by omega⟩
    · exact h_whole ▸ Nat.le_add_right _ _
    · split at h_acts <;> omega
  · exact Nat.le_trans (Nat.le_add_left _ _) ((logged_traced source options).performAll calls)
  · intro more behind
    obtain ⟨later, h_later⟩ := Trail.performAll (s.performAll walk).2 more
    have h_stop : ¬(s.performAll walk).2.Running := by
      rw [h_end]
      exact stopped_walkOnto (h_trail.ordered (ordered_ofInput _ _)) rfl
    exact next_of_not_open (Or.inl (h_later.stopped h_stop))

/-- In `a{b:1}`, handed over byte by byte with every second request interrupted, a walk makes four
calls for two properties and an object. -/
theorem performAll_bounded_interrupted :
    let text : Bytes := [0x61, 0x7b, 0x62, 0x3a, 0x31, 0x7d]
    let source : ScriptedSource :=
      { schedule := { pieces := #[1], interruptEvery := 2 }, rest := text }
    let start := traced (⟨source⟩ : Retrying ScriptedSource) {}
    let walk := start.walkCalls [rootId]
    walk = [.next 0, .next 1, .next 1, .next 0] ∧ (start.handedOut walk).length = 2 ∧
      (start.performAll walk).2.consumed = 6 ∧
      ∀ more, let behind := ((start.performAll walk).2.performAll more).2
        behind.next rootId = (none, behind) := by
  intro text source start walk
  obtain ⟨-, -, -, ⟨-, -, h_good⟩, -⟩ :=
    performAll_bounded (⟨source⟩ : Retrying ScriptedSource) {} []
  exact ⟨by decide +kernel, by decide +kernel, by decide +kernel, h_good⟩

/-- In `a{b{` two properties take four bytes, and two objects are open behind them. -/
example :
    let start := traced ({ rest := [0x61, 0x7b, 0x62, 0x7b] } : Slice) {}
    let s := (start.performAll [.next 0, .next 1]).2
    s.consumed = 4 ∧ (start.handedOut [.next 0, .next 1]).length = 2 ∧ s.path.length = 3 := by
  decide +kernel

end Stream
end PropertyText
