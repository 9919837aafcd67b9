/-
  PropertyText.Proofs.Stream.Problems

  All that is wrong is recorded in passing, the general complaint after the precise one, and
  only the first record stands.  The problems that a request detects are listed here in the
  order in which it detects them (`Stream.problems`), and each step is shown to keep the
  first one and to leave the stream alone behind it (`Stream.Finds`).
-/
import PropertyText.Proofs.Stream.Schedule
import PropertyText.Source.Scripted

namespace PropertyText

/-! ## Problems with a token -/

/-- What is missing where the text ends. -/
def Token.Mode.missing (mode : Token.Mode) : List Token.Fault :=
  match mode.finish with
  | .ok _ => []
  | .error cause => [.malformed cause]

namespace Token

variable {ι : Type} [Input ι]

/-- Everything that is found to be wrong with a token.  Where no more text can be fetched,
this is found first, and then that the token is not at its end. -/
def faults (comments : Bool) (mode : Mode) (i : ι) : List Fault :=
  match _h : Input.peek i with
  | (.ended, _) => mode.missing
  | (.failed message, _) => .failed message :: mode.missing
  | (.byte b, i') =>
    match mode.step comments b with
    | .more next => faults comments next (Input.advance i')
    | .done _ | .before _ => []
    | .refused cause => [.malformed cause]
termination_by Input.left i
decreasing_by exact Input.left_advance_lt _h

variable {comments : Bool} {mode : Mode} {i i' : ι}

theorem faults_of_ended (h : Input.peek i = (.ended, i')) :
    faults comments mode i = mode.missing := by
  rw [faults]
  split <;> simp_all

theorem faults_of_failed {message : String} (h : Input.peek i = (.failed message, i')) :
    faults comments mode i = .failed message :: mode.missing := by
  rw [faults]
  split <;> simp_all

theorem faults_of_byte {b : UInt8} (h : Input.peek i = (.byte b, i')) :
    faults comments mode i =
      match mode.step comments b with
      | .more next => faults comments next (Input.advance i')
      | .done _ | .before _ => []
      | .refused cause => [.malformed cause] := by
  rw [faults]
  split
  · simp_all
  · simp_all
  · rename_i c i₁ h_peek
    obtain ⟨h_look, rfl⟩ := Prod.mk.inj (h_peek.symm.trans h)
    obtain rfl := Look.byte.inj h_look
    cases mode.step comments c <;> rfl

/-- Nothing is wrong with a token that is read. -/
theorem faults_of_ok {token : Token} (h : (scan comments mode i).1 = .ok token) :
    faults comments mode i = [] := by
  fun_induction scan comments mode i with
  | case1 mode i i' h_peek =>
    rw [faults_of_ended h_peek, Mode.missing]
    cases h_finish : mode.finish with
    | ok t => rfl
    | error cause => rw [h_finish] at h; cases h
  | case2 mode i m i' h_peek => cases h
  | case3 mode i b i' h_peek next h_step ih =>
    rw [faults_of_byte h_peek, h_step]
    exact ih h
  | case4 mode i b i' h_peek token h_step | case5 mode i b i' h_peek token h_step =>
    rw [faults_of_byte h_peek, h_step]
  | case6 mode i b i' h_peek cause h_step => cases h

/-- Of a token that is not read the first fault is told. -/
theorem head?_faults_of_error {fault : Fault} (h : (scan comments mode i).1 = .error fault) :
    (faults comments mode i).head? = some fault := by
  fun_induction scan comments mode i with
  | case1 mode i i' h_peek =>
    rw [faults_of_ended h_peek, Mode.missing]
    cases h_finish : mode.finish with
    | ok t => rw [h_finish] at h; cases h
    | error cause =>
      rw [h_finish] at h
      exact congrArg some (Except.error.inj h)
  | case2 mode i m i' h_peek =>
    rw [faults_of_failed h_peek]
    exact congrArg some (Except.error.inj h)
  | case3 mode i b i' h_peek next h_step ih =>
    rw [faults_of_byte h_peek, h_step]
    exact ih h
  | case4 mode i b i' h_peek token h_step | case5 mode i b i' h_peek token h_step => cases h
  | case6 mode i b i' h_peek cause h_step =>
    rw [faults_of_byte h_peek, h_step]
    exact congrArg some (Except.error.inj h)

end Token

namespace Stream

variable {ι : Type} [Input ι]

/-! ## Problems with a request -/

/-- Something that is found to be wrong, with how far the text had been read. -/
structure Problem (ι : Type) where
  error : Error
  input : ι

/-- Text that is malformed up to here. -/
def malformed (s : Stream ι) (cause : Malformation) : Problem ι :=
  ⟨.malformed s.line cause, s.input⟩

/-- A demand that is not met here. -/
def violated (s : Stream ι) (cause : Violation) : Problem ι :=
  ⟨.violated s.line cause, s.input⟩

/-- What is wrong with the next token.  Behind an error none is read. -/
def tokenProblems (s : Stream ι) : List (Problem ι) :=
  match s.error with
  | some _ => []
  | none =>
    let s' := s.takeToken.2
    (Token.faults s.comments s.mode s.input).map fun fault => ⟨fault.onLine s'.line, s'.input⟩

/-- What is wrong with what follows a name. -/
def contentProblems (s : Stream ι) : List (Problem ι) :=
  s.tokenProblems ++
    match s.takeToken with
    | (some .colon, s) =>
      s.tokenProblems ++
        match s.takeToken with
        | (some (.text _), _) => []
        | (_, s) => [s.malformed .valueExpected]
    | (some .openBrace, _) => []
    | (_, s) => [s.malformed .contentExpected]

/-- What is wrong with the next property of the innermost object. -/
def propertyProblems (s : Stream ι) : List (Problem ι) :=
  s.tokenProblems ++
    match s.takeToken with
    | (some (.text _), s) => s.contentProblems
    | (some .closeBrace, s) => if s.atTop then [s.malformed .strayClose] else []
    | (some .ended, s) => if s.atTop then [] else [s.malformed .unexpectedEnd]
    | (some .colon, s) | (some .openBrace, s) => [s.malformed .nameExpected]
    | (none, _) => []

/-- What is wrong with what is left of the objects inside a given one. -/
def skipProblems (id : ObjectId) (s : Stream ι) : List (Problem ι) :=
  match _h_path : s.path with
  | top :: _ :: _ =>
    if top = id then []
    else
      match _h_error : s.readProperty.2.error with
      | some _ => s.propertyProblems
      | none => s.propertyProblems ++ skipProblems id s.readProperty.2
  | _ => []
termination_by Input.left s.input
decreasing_by exact left_readProperty_lt (by simp [atTop, _h_path]) _h_error

/-- What is wrong on the way to the next property of an object, and with that property. -/
def nextProblems (s : Stream ι) (id : ObjectId) : List (Problem ι) :=
  if s.error.isSome || s.finished || !s.path.contains id then []
  else
    s.skipProblems id ++
      if (s.skipTo id).error.isSome then [] else (s.skipTo id).propertyProblems

/-- What is wrong with everything below the innermost of the given objects. -/
def walkProblems (s : Stream ι) (path : List ObjectId) : List (Problem ι) :=
  match path with
  | [] => []
  | id :: outer =>
    match _h : s.next id with
    | (some ⟨_, .text _⟩, s') => s.nextProblems id ++ walkProblems s' (id :: outer)
    | (some ⟨_, .object child⟩, s') => s.nextProblems id ++ walkProblems s' (child :: id :: outer)
    | (none, s') => s.nextProblems id ++ walkProblems s' outer
termination_by 2 * Input.left s.input + path.length
decreasing_by
  · have := left_next_lt _h
    simp only [List.length_cons]
    omega
  · have := left_next_lt _h
    simp only [List.length_cons]
    omega
  · have := left_next_le s id
    simp only [_h] at this
    simp only [List.length_cons]
    omega

/-- What is wrong with the next properties of an object. -/
def takeProblems (s : Stream ι) (id : ObjectId) : Nat → List (Problem ι)
  | 0 => []
  | n + 1 =>
    s.nextProblems id ++
      match s.next id with
      | (none, _) => []
      | (some _, s) => s.takeProblems id n

/-- The problem with a property that is asked for its text. -/
def valueProblems (s : Stream ι) (p : Property) : List (Problem ι) :=
  match p.content with
  | .text _ => []
  | .object _ => [s.violated (.holdsObject p.nameText)]

/-- The problems with a request, in the order in which they are found. -/
def callProblems (s : Stream ι) : Call → List (Problem ι)
  | .next object => s.nextProblems object
  | .take object count => s.takeProblems object count
  | .walk object | .readFields object => s.walkProblems [object]
  | .load => s.walkProblems [rootId]
  | .value p => s.valueProblems p
  | .inner p =>
    match p.content with
    | .text _ => [s.violated (.holdsText p.nameText)]
    | .object _ => []
  -- An object has no text, so what is asked of its text fails as well.
  | .parse p type =>
    s.valueProblems p ++
      match type.parse? (s.valueText p).1 with
      | some _ => []
      | none => [s.violated (.badValue p.nameText (s.valueText p).1)]
  | .choose p names =>
    s.valueProblems p ++
      match names.findIdx? (· == (s.valueText p).1) with
      | some _ => []
      | none => [s.violated (.unknownValue p.nameText (s.valueText p).1)]
  | .check message condition => if condition then [] else [s.violated (.failedCheck message)]

/-- The problems with requests that are made one after the other. -/
def problems (s : Stream ι) : List Call → List (Problem ι)
  | [] => []
  | call :: calls => s.callProblems call ++ (s.perform call).2.problems calls

/-! ## The first problem stands -/

/-- Between two streams some problems are found.  The first of them is recorded, unless an
error was; nothing is read behind a problem; and behind an error nothing changes at all. -/
structure Finds (s : Stream ι) (found : List (Problem ι)) (s' : Stream ι) : Prop where
  error : s'.error = s.error.or (found.head?.map Problem.error)
  still : ∀ problem ∈ found, problem.input = s'.input
  frozen : s.error ≠ none → s' = s

namespace Finds

variable {s s₁ s₂ : Stream ι} {found more : List (Problem ι)}

omit [Input ι] in
theorem refl (s : Stream ι) : Finds s [] s :=
  ⟨by simp, by simp, fun _ => rfl⟩

omit [Input ι] in
/-- A step without a problem may change what it likes as long as no error is recorded. -/
theorem quiet (h : s.error = none) (h_behind : s₁.error = none) : Finds s [] s₁ :=
  ⟨by simp [h, h_behind], by simp, fun h_error => absurd h h_error⟩

omit [Input ι] in
theorem trans (h : Finds s found s₁) (h_more : Finds s₁ more s₂) :
    Finds s (found ++ more) s₂ := by
  refine ⟨?_, ?_, ?_⟩
  · rw [h_more.error, h.error, List.head?_append, Option.map_or, Option.or_assoc]
  · intro problem h_mem
    rcases List.mem_append.mp h_mem with h_first | h_second
    · -- The problem has been recorded, so nothing has been read since.
      have h_error : s₁.error ≠ none := by
        rw [h.error]
        cases found with
        | nil => cases h_first
        | cons first rest => simp
      rw [h_more.frozen h_error]
      exact h.still problem h_first
    · exact h_more.still problem h_second
  · intro h_error
    have h_same := h.frozen h_error
    rw [h_more.frozen (h_same ▸ h_error), h_same]

omit [Input ι] in
/-- Recording an error finds a problem where the stream stands. -/
theorem record (s : Stream ι) (e : Error) : Finds s [⟨e, s.input⟩] (s.record e) := by
  refine ⟨rfl, by simp [Stream.record], ?_⟩
  intro h_error
  obtain ⟨first, h_first⟩ := Option.ne_none_iff_exists'.mp h_error
  rw [Stream.record, h_first, Option.some_or, ← h_first]

theorem refuse (s : Stream ι) (cause : Malformation) :
    Finds s [s.malformed cause] (s.refuse cause) :=
  record s _

theorem violate (s : Stream ι) (cause : Violation) :
    Finds s [s.violated cause] (s.violate cause) :=
  record s _

/-! ### Reading -/

theorem takeToken (s : Stream ι) : Finds s s.tokenProblems s.takeToken.2 := by
  cases h_error : s.error with
  | some e =>
    simp only [tokenProblems, Stream.takeToken, h_error]
    exact refl s
  | none =>
    rcases h_scan : Token.scan s.comments s.mode s.input with ⟨fault | token, input⟩
    · have h_first := Token.head?_faults_of_error (congrArg Prod.fst h_scan)
      simp only [tokenProblems, Stream.takeToken, h_error, h_scan]
      refine ⟨?_, by simp [Stream.record], fun h => absurd h_error h⟩
      simp [Stream.record, h_error, h_first, line]
    · have h_none := Token.faults_of_ok (congrArg Prod.fst h_scan)
      simp only [tokenProblems, Stream.takeToken, h_error, h_scan, h_none]
      exact quiet h_error rfl

/-- Behind a token that was read no error is recorded. -/
theorem error_of_token {token : Token} (h : s.takeToken = (some token, s₁)) :
    s₁.error = none := by
  cases h_error : s.error with
  | some e =>
    rw [Stream.takeToken, h_error] at h
    cases h
  | none =>
    rcases takeToken_cases h_error with ⟨t, input, h_token⟩ | ⟨input, e, h_token⟩
    · rw [h_token] at h
      obtain ⟨-, rfl⟩ := Prod.mk.inj h
      exact h_error
    · rw [h_token] at h
      cases h

theorem readContent (s : Stream ι) (name : Bytes) :
    Finds s s.contentProblems (s.readContent name).2 := by
  have h_first := takeToken s
  unfold contentProblems Stream.readContent
  rcases h_token : s.takeToken with ⟨token, s₁⟩
  rw [h_token] at h_first
  rcases token with _ | ⟨bytes⟩ | _ | _ | _ | _
  case some.colon =>
    have h_second := takeToken s₁
    dsimp only
    rcases h_value : s₁.takeToken with ⟨second, s₂⟩
    rw [h_value] at h_second
    rcases second with _ | ⟨bytes⟩ | _ | _ | _ | _
    case some.text =>
      simpa using h_first.trans h_second
    -- What is wrong with the token, if anything, is found before that it is not a text.
    all_goals exact h_first.trans (h_second.trans (refuse s₂ _))
  case some.openBrace =>
    have h_none := error_of_token h_token
    exact h_first.trans (quiet h_none h_none)
  all_goals exact h_first.trans (refuse s₁ _)

theorem readProperty (s : Stream ι) : Finds s s.propertyProblems s.readProperty.2 := by
  have h_first := takeToken s
  unfold propertyProblems Stream.readProperty
  rcases h_token : s.takeToken with ⟨token, s₁⟩
  rw [h_token] at h_first
  rcases token with _ | ⟨name⟩ | _ | _ | _ | _
  case none => simpa using h_first
  case some.text => exact h_first.trans (readContent s₁ name)
  case some.closeBrace =>
    have h_none := error_of_token h_token
    dsimp only
    split
    · exact h_first.trans (refuse s₁ _)
    · exact h_first.trans (quiet h_none h_none)
  case some.ended =>
    have h_none := error_of_token h_token
    dsimp only
    split
    · exact h_first.trans (quiet h_none h_none)
    · exact h_first.trans (refuse s₁ _)
  all_goals exact h_first.trans (refuse s₁ _)

theorem skipTo (object : ObjectId) (s : Stream ι) :
    Finds s (s.skipProblems object) (s.skipTo object) := by
  have h_read := readProperty s
  fun_induction skipProblems object s with
  | case1 s mid rest h_path =>
    rw [skipTo_of_top s h_path]
    exact refl s
  | case2 s top mid rest h_path h_top e h_error =>
    have h_inside : s.atTop = false := by simp [atTop, h_path]
    rw [skipTo_of_ne s h_path h_top h_inside, h_error]
    exact h_read
  | case3 s top mid rest h_path h_top h_error ih =>
    have h_inside : s.atTop = false := by simp [atTop, h_path]
    rw [skipTo_of_ne s h_path h_top h_inside, h_error]
    exact h_read.trans (ih (readProperty _))
  | case4 s h_path =>
    rw [skipTo_of_atTop s object (atTop_of_path h_path)]
    exact refl s

theorem next (s : Stream ι) (object : ObjectId) :
    Finds s (s.nextProblems object) (s.next object).2 := by
  unfold nextProblems Stream.next
  split
  · exact refl s
  · have h_skip := skipTo object s
    dsimp only
    split
    · simpa using h_skip
    · exact h_skip.trans (readProperty _)

/-! ### Reading many properties -/

theorem walkOnto (seen : List (Event Bytes)) (s : Stream ι) (path : List ObjectId) :
    Finds s (s.walkProblems path) (Stream.walkOnto seen s path).2 := by
  fun_induction walkProblems s path generalizing seen with
  | case1 s =>
    rw [walkOnto_nil]
    exact refl s
  | case2 s object outer name value s' h_next ih =>
    have h_first := next s object
    rw [h_next] at h_first
    rw [walkOnto_of_text h_next]
    exact h_first.trans (ih _)
  | case3 s object outer name child s' h_next ih =>
    have h_first := next s object
    rw [h_next] at h_first
    rw [walkOnto_of_object h_next]
    exact h_first.trans (ih _)
  | case4 s object outer s' h_next ih =>
    have h_first := next s object
    rw [h_next] at h_first
    rw [walkOnto_of_none h_next]
    exact h_first.trans (ih _)

theorem take (s : Stream ι) (object : ObjectId) (count : Nat) :
    Finds s (s.takeProblems object count) (s.take object count).2 := by
  induction count generalizing s with
  | zero => exact refl s
  | succ n ih =>
    have h_first := next s object
    rw [takeProblems, Stream.take]
    rcases h_next : s.next object with ⟨_ | p, s₁⟩
    · rw [h_next] at h_first
      simpa using h_first
    · rw [h_next] at h_first
      exact h_first.trans (ih s₁)

theorem load (s : Stream ι) : Finds s (s.walkProblems [rootId]) s.load.2 := by
  have h_walk := walkOnto [] s [rootId]
  unfold Stream.load
  dsimp only
  split
  · exact h_walk
  · exact h_walk

/-! ### Asking properties -/

theorem value (s : Stream ι) (p : Property) : Finds s (s.valueProblems p) (s.value p).2 := by
  rw [valueProblems, Stream.value]
  cases p.content with
  | text value => exact refl s
  | object object => exact violate s _

/-- What a property holds is told without a step in the text. -/
theorem violated_value (s : Stream ι) (p : Property) (cause : Violation) :
    (s.value p).2.violated cause = s.violated cause := by
  rw [Stream.value]
  cases p.content <;> rfl

theorem perform (s : Stream ι) (call : Call) :
    Finds s (s.callProblems call) (s.perform call).2 := by
  cases call with
  | next object => exact next s object
  | take object count => exact take s object count
  | walk object => exact walkOnto [] s [object]
  | readFields object => exact walkOnto [] s [object]
  | load => exact load s
  | value p => exact value s p
  | inner p =>
    unfold callProblems Stream.perform Stream.inner
    dsimp only
    cases p.content with
    | text value => exact violate s _
    | object object => exact refl s
  | parse p type =>
    have h_value : Finds s (s.valueProblems p) (s.valueText p).2 := value s p
    unfold callProblems Stream.perform Stream.parse
    dsimp only
    cases type.parse? (s.valueText p).1 with
    | some scalar => simpa using h_value
    | none =>
      rw [← violated_value s p]
      exact h_value.trans (violate _ _)
  | choose p names =>
    have h_value : Finds s (s.valueProblems p) (s.valueText p).2 := value s p
    unfold callProblems Stream.perform Stream.choose
    dsimp only
    cases names.findIdx? (· == (s.valueText p).1) with
    | some place => simpa using h_value
    | none =>
      rw [← violated_value s p]
      exact h_value.trans (violate _ _)
  | check message condition =>
    unfold callProblems Stream.perform Stream.check
    cases condition with
    | true => exact refl s
    | false => exact violate s _

theorem performAll (s : Stream ι) (calls : List Call) :
    Finds s (s.problems calls) (s.performAll calls).2 := by
  induction calls generalizing s with
  | nil => exact refl s
  | cons call calls ih => exact (perform s call).trans (ih _)

end Finds

/-- Behind an error a stream stays as it is, whatever is requested: the error, the line, the
open objects and the input, so the source is not read.  Each request is answered as if it
were the only one, and there is no next property.  Before that, the first of all problems
that the requests detect is the one that is recorded, and nothing is read behind it. -/
theorem performAll_first_problem (s : Stream ι) (calls : List Call) :
    (s.error ≠ none →
      s.performAll calls = (calls.map fun call => (s.perform call).1, s) ∧
        ∀ object, s.next object = (none, s)) ∧
    (s.performAll calls).2.error =
      s.error.or ((s.problems calls).head?.map Problem.error) ∧
    ∀ problem ∈ s.problems calls, problem.input = (s.performAll calls).2.input := by
  have h_finds := Finds.performAll s calls
  refine ⟨?_, h_finds.error, h_finds.still⟩
  intro h_error
  refine ⟨?_, next_of_error h_error⟩
  have h_frozen (call : Call) : (s.perform call).2 = s := (Finds.perform s call).frozen h_error
  induction calls with
  | nil => rfl
  | cons call calls ih =>
    rw [performAll_cons, h_frozen, ih (Finds.performAll s calls)]
    rfl

/-- A source fails inside a quoted value.  That it does is found first; that the string is not
closed, and that no value follows the colon, are found afterwards and not recorded. -/
theorem performAll_first_problem_quoted :
    let source : ScriptedSource :=
      { schedule := { failAt := some 5 }, rest := [0x61, 0x3a, 0x20, 0x22, 0x62] }
    let s := ofSource source {}
    let failed := (s.performAll [.next 0]).2
    let calls : List Call := [.next 0, .check "" false, .inner ⟨[0x61], .text []⟩, .load]
    ((s.problems [.next 0]).map Problem.error =
        [.transfer 1 "connection reset", .malformed 1 .unexpectedEnd,
          .malformed 1 .valueExpected] ∧
      failed.error = some (.transfer 1 "connection reset")) ∧
    (failed.performAll calls).2 = failed ∧ failed.next 0 = (none, failed) := by
  intro source s failed calls
  have h_problems : (s.problems [.next 0]).map Problem.error =
      [.transfer 1 "connection reset", .malformed 1 .unexpectedEnd,
        .malformed 1 .valueExpected] := by decide +kernel
  have h_error : failed.error = some (.transfer 1 "connection reset") := by
    obtain ⟨-, h_first, -⟩ := performAll_first_problem s [.next 0]
    rw [show failed.error = _ from h_first, ← List.head?_map, h_problems]
    rfl
  obtain ⟨h_frozen, -, -⟩ := performAll_first_problem failed calls
  obtain ⟨h_run, h_next⟩ := h_frozen (by simp [h_error])
  exact ⟨⟨h_problems, h_error⟩, by rw [h_run], h_next 0⟩

end Stream
end PropertyText
