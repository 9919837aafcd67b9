/-
  PropertyText.Proofs.Source.Traced

  Read-ahead that keeps a log of what it does: each look at the next byte, with what the
  source brought if it was asked, and each step over a byte.  What is read is the same
  (`Traced.view_reader`), and every request is in the log (`Traced.Kept`).  A source is asked
  only where all that it brought has been stepped over (`Log.Asked`), and a look is made only
  for a byte that is needed (`Log.Needed`).
-/
import PropertyText.Proofs.Source.Delivered

namespace PropertyText

/-! ## Requests -/

/-- The bytes of an answer that count when so many were asked for. -/
def Fill.counted (size : Nat) : Fill → Bytes
  | .bytes piece => piece.take size
  | .interrupted _ | .failed _ => []

/-- What a source brings when it is asked so many times, and the source behind that. -/
def Source.brought {σ : Type} [Source σ] (s : σ) (size : Nat) : Nat → List Bytes × σ
  | 0 => ([], s)
  | n + 1 =>
    let (pieces, s) := brought s size n
    (pieces ++ [(fill s size).1.counted size], (fill s size).2)

/-! ## Logs -/

/-- Something that read-ahead does. -/
inductive Act where
  /-- A look at the next byte.  The source was asked for it if some bytes are given, which are
  those that it brought: none at its end and where it failed. -/
  | looked (brought : Option Bytes) (look : Look)
  | took (byte : UInt8)
  deriving DecidableEq, Repr

namespace Act

def brought? : Act → Option Bytes
  | .looked brought _ => brought
  | .took _ => none

def taken? : Act → Option UInt8
  | .looked _ _ => none
  | .took b => some b

end Act

/-- What was done, in its order. -/
abbrev Log := List Act

namespace Log

/-- What the requests brought. -/
def brought (log : Log) : List Bytes := log.filterMap Act.brought?

/-- The bytes that were stepped over. -/
def taken (log : Log) : Bytes := log.filterMap Act.taken?

@[simp] theorem brought_append (a b : Log) : brought (a ++ b) = brought a ++ brought b :=
  List.filterMap_append

@[simp] theorem taken_append (a b : Log) : taken (a ++ b) = taken a ++ taken b :=
  List.filterMap_append

@[simp] theorem brought_none (look : Look) : brought [.looked none look] = [] := rfl

@[simp] theorem brought_some (bytes : Bytes) (look : Look) :
    brought [.looked (some bytes) look] = [bytes] := rfl

@[simp] theorem brought_took (b : UInt8) : brought [.took b] = [] := rfl

@[simp] theorem taken_looked (bytes : Option Bytes) (look : Look) :
    taken [.looked bytes look] = [] := rfl

@[simp] theorem taken_took (b : UInt8) : taken [.took b] = [b] := rfl

/-- Whenever the source was asked, all that it had brought had been stepped over, and it had
never before come to its end or failed. -/
def Asked (log : Log) : Prop :=
  ∀ front bytes look, front ++ [.looked (some bytes) look] <+: log →
    (brought front).flatten = taken front ∧ [] ∉ brought front

theorem asked_nil : Asked [] := by
  intro front bytes look h
  simp at h

theorem Asked.concat {log : Log} (h : Asked log) {act : Act}
    (h_act : ∀ bytes, act.brought? = some bytes →
      (brought log).flatten = taken log ∧ [] ∉ brought log) : Asked (log ++ [act]) := by
  intro front bytes look h_prefix
  rcases List.prefix_concat_iff.mp h_prefix with h_last | h_before
  · obtain ⟨rfl, h_same⟩ := List.append_inj' h_last rfl
    obtain rfl := (List.cons.inj h_same).1
    exact h_act bytes rfl
  · exact h front bytes look h_before

/-- A byte that may stand in a bare string was stepped over last. -/
def EndsBare (log : Log) : Prop :=
  ∃ front last, log = front ++ [.took last] ∧ isBareByte last = true

/-- What a look may be for, given what was done before and after it.  The byte is stepped over
next, or it shows where a bare string ends.  Where there is none, the text ends, either behind
a bare string or so that nothing more is read. -/
def Serves (stopped : Prop) (front : Log) (look : Look) (back : Log) : Prop :=
  match look with
  | .byte b => back.head? = some (.took b) ∨ EndsBare front ∧ isBareByte b = false
  | .ended => EndsBare front ∨ stopped
  | .failed _ => stopped

/-- Every look serves to read on. -/
def Needed (stopped : Prop) (log : Log) : Prop :=
  ∀ front bytes look back, log = front ++ .looked bytes look :: back →
    Serves stopped front look back

theorem needed_nil (stopped : Prop) : Needed stopped [] := by
  intro front bytes look back h
  simp at h

theorem Serves.imp {stopped stopped' : Prop} {front back : Log} {look : Look}
    (h : Serves stopped front look back) (h_stopped : stopped → stopped') :
    Serves stopped' front look back := by
  cases look with
  | byte b => exact h
  | ended => exact Or.imp_right h_stopped h
  | failed message => exact h_stopped h

theorem Needed.imp {stopped stopped' : Prop} {log : Log} (h : Needed stopped log)
    (h_stopped : stopped → stopped') : Needed stopped' log := by
  intro front bytes look back h_log
  exact (h front bytes look back h_log).imp h_stopped

/-- What is done later does not take away what a look was for. -/
theorem Serves.append {stopped : Prop} {front back : Log} {look : Look}
    (h : Serves stopped front look back) (more : Log) :
    Serves stopped front look (back ++ more) := by
  cases look with
  | byte b =>
    refine Or.imp_left ?_ h
    intro h_head
    rw [List.head?_append, h_head, Option.some_or]
  | ended => exact h
  | failed message => exact h

theorem Needed.append {stopped : Prop} {log more : Log} (h : Needed stopped log)
    (h_more : ∀ front bytes look back, more = front ++ .looked bytes look :: back →
      Serves stopped (log ++ front) look back) : Needed stopped (log ++ more) := by
  intro front bytes look back h_log
  rcases List.append_eq_append_iff.mp h_log with ⟨between, rfl, h_back⟩ | ⟨between, h_front, h_back⟩
  · exact h_more between bytes look back h_back
  · cases between with
    | nil =>
      obtain rfl : log = front := by simpa using h_front
      have h_first := h_more [] bytes look back h_back.symm
      rwa [List.append_nil] at h_first
    | cons act between =>
      obtain ⟨rfl, rfl⟩ := List.cons.inj h_back
      exact (h front bytes look between h_front).append more

/-- A look is added, with what is done until the next one. -/
theorem Needed.look {stopped : Prop} {log : Log} (h : Needed stopped log)
    {bytes : Option Bytes} {look : Look} (back : Log) (h_look : Serves stopped log look back)
    (h_back : ∀ bytes look, .looked bytes look ∉ back) :
    Needed stopped (log ++ .looked bytes look :: back) := by
  apply h.append
  intro front bytes' look' back' h_more
  cases front with
  | nil =>
    obtain ⟨h_act, rfl⟩ := List.cons.inj h_more
    obtain ⟨-, rfl⟩ := Act.looked.inj h_act
    rwa [List.append_nil]
  | cons act front =>
    obtain ⟨-, rfl⟩ := List.cons.inj h_more
    exact absurd (by simp) (h_back bytes' look')

theorem Needed.looked {stopped : Prop} {log : Log} (h : Needed stopped log)
    (bytes : Option Bytes) {look : Look} (h_look : Serves stopped log look []) :
    Needed stopped (log ++ [.looked bytes look]) :=
  h.look [] h_look (by simp)

/-- A byte that is looked at may be stepped over. -/
theorem Needed.took {stopped : Prop} {log : Log} (h : Needed stopped log)
    (bytes : Option Bytes) (b : UInt8) :
    Needed stopped (log ++ [.looked bytes (.byte b)] ++ [.took b]) := by
  rw [List.append_assoc]
  exact h.look [.took b] (Or.inl rfl) (by simp)

/-- While reading goes on, the last byte was stepped over last, unless one more was looked at
to find the end of a bare string. -/
theorem Needed.last_took {log : Log} {last : UInt8} (h : Needed False log)
    (h_last : (taken log).getLast? = some last) :
    ∃ front back, log = front ++ .took last :: back ∧
      (back = [] ∨ isBareByte last = true ∧ ∃ bytes look, back = [.looked bytes look]) := by
  have h_log : log ≠ [] := by
    rintro rfl
    cases h_last
  obtain ⟨front, act, rfl⟩ := (List.eq_nil_or_concat log).resolve_left h_log
  rw [List.concat_eq_append] at h h_last ⊢
  cases act with
  | took b =>
    obtain rfl : b = last := by simpa using h_last
    exact ⟨front, [], rfl, Or.inl rfl⟩
  | looked bytes look =>
    have h_serves := h front bytes look [] rfl
    have h_bare : EndsBare front := by
      cases look with
      | byte b => exact (h_serves.resolve_left (by simp)).1
      | ended => exact h_serves.resolve_right id
      | failed message => exact h_serves.elim
    obtain ⟨start, b, rfl, h_byte⟩ := h_bare
    rw [taken_append, taken_append, taken_took, taken_looked, List.append_nil,
      List.getLast?_concat] at h_last
    obtain rfl := Option.some.inj h_last
    exact ⟨start, [.looked bytes look], by simp, Or.inr ⟨h_byte, bytes, look, rfl⟩⟩

end Log

/-! ## Read-ahead, one look at a time -/

namespace ReadAhead

variable {σ : Type} [Source σ]

/-- What the source brings if it has to be asked for the next byte. -/
def request (r : ReadAhead σ) : Option Bytes :=
  match r.window[r.position]? with
  | some _ => none
  | none =>
    if r.exhausted then none else some ((Source.fill r.source r.capacity).1.counted r.capacity)

/-- A look finds a byte in the window, or the source done, or it asks for a new window. -/
theorem peek_cases (r : ReadAhead σ) :
    (∃ b, r.peek = (.byte b, r) ∧ r.request = none) ∨ r.peek = (.ended, r) ∧ r.request = none ∨
      r.window[r.position]? = none ∧ r.exhausted = false ∧ r.peek = r.refill ∧
        r.request = some ((Source.fill r.source r.capacity).1.counted r.capacity) := by
  unfold peek request
  cases h_window : r.window[r.position]? with
  | some b => exact Or.inl ⟨b, rfl, rfl⟩
  | none =>
    cases h_exhausted : r.exhausted with
    | true => exact Or.inr (Or.inl ⟨rfl, rfl⟩)
    | false => exact Or.inr (Or.inr ⟨rfl, rfl, rfl, rfl⟩)

/-- A new window holds what the source brings; the source is done if that is nothing. -/
theorem refill_spec {r : ReadAhead σ} (h : r.window[r.position]? = none) :
    r.refill.2.source = (Source.fill r.source r.capacity).2 ∧
      r.refill.2.capacity = r.capacity ∧
      r.refill.2.window.toList.drop r.refill.2.position =
        (Source.fill r.source r.capacity).1.counted r.capacity ∧
      ((Source.fill r.source r.capacity).1.counted r.capacity = [] →
        r.refill.2.exhausted = true) := by
  have h_drop := drop_window_nil h
  unfold refill
  rcases Source.fill r.source r.capacity with ⟨answer, source⟩
  cases answer with
  | bytes bytes =>
    cases h_take : bytes.take r.capacity with
    | nil => simp [Fill.counted, h_take, h_drop]
    | cons b rest => simp [Fill.counted, h_take]
  | interrupted message => exact ⟨rfl, rfl, h_drop, fun _ => rfl⟩
  | failed message => exact ⟨rfl, rfl, h_drop, fun _ => rfl⟩

/-- Stepping over a byte takes it from the window, and from what is still to be read. -/
theorem advance_spec {r : ReadAhead σ} {b : UInt8} (h : r.window[r.position]? = some b) :
    r.window.toList.drop r.position = b :: r.advance.window.toList.drop r.advance.position ∧
      r.unread.bytes = b :: r.advance.unread.bytes := by
  have h_drop := drop_window h
  simp [advance, h, unread, toCome, h_drop]

theorem bytes_unread_peek (r : ReadAhead σ) : r.peek.2.unread.bytes = r.unread.bytes := by
  have h_view : Unread.peek r.unread = r.peek.map id unread := view_unread.peek r
  have h_bytes : (Unread.peek r.unread).2.bytes = r.unread.bytes := by
    unfold Unread.peek
    split <;> rfl
  rw [← h_bytes, h_view]
  rfl

end ReadAhead

/-! ## Read-ahead with a log -/

structure Traced (σ : Type) where
  reader : ReadAhead σ
  log : Log := []

namespace Traced

variable {σ : Type} [Source σ]

def peek (t : Traced σ) : Look × Traced σ :=
  (t.reader.peek.1, ⟨t.reader.peek.2, t.log ++ [.looked t.reader.request t.reader.peek.1]⟩)

def advance (t : Traced σ) : Traced σ :=
  match t.reader.window[t.reader.position]? with
  | some b => ⟨t.reader.advance, t.log ++ [.took b]⟩
  | none => t

/-- A byte that was looked at is stepped over. -/
theorem advance_eq {t t' : Traced σ} {b : UInt8} (h : t.peek = (.byte b, t')) :
    t'.advance = ⟨t'.reader.advance, t'.log ++ [.took b]⟩ := by
  obtain ⟨h_look, rfl⟩ := Prod.mk.inj h
  have h_window := ReadAhead.window_of_peek (Prod.ext h_look rfl)
  unfold advance
  rw [h_window]

instance : Input (Traced σ) where
  peek := peek
  advance := advance
  line t := t.reader.line
  left t := t.reader.left
  left_peek t := t.reader.left_peek
  left_advance := by
    intro t t' b h
    rw [advance_eq h]
    obtain ⟨h_look, rfl⟩ := Prod.mk.inj h
    exact ReadAhead.left_advance (Prod.ext h_look rfl)

/-- Keeping a log does not change what is read. -/
theorem view_reader : Input.View (reader : Traced σ → ReadAhead σ) where
  peek t := rfl
  advance := by
    intro t t' b h
    change ReadAhead.advance t'.reader = (advance t').reader
    rw [advance_eq h]
  line t := rfl

theorem view_unread : Input.View fun t : Traced σ => t.reader.unread :=
  view_reader.comp ReadAhead.view_unread

theorem log_of_peek {t t' : Traced σ} {look : Look} (h : Input.peek t = (look, t')) :
    ∃ bytes, t'.log = t.log ++ [.looked bytes look] := by
  obtain ⟨rfl, rfl⟩ := Prod.mk.inj h
  exact ⟨_, rfl⟩

theorem log_advance {t t' : Traced σ} {b : UInt8} (h : Input.peek t = (.byte b, t')) :
    (Input.advance t').log = t'.log ++ [.took b] := by
  change (advance t').log = _
  rw [advance_eq h]

/-! ## What the log tells -/

/-- The log of a source that has been asked for `size` bytes each time, and that delivers a
text as a whole: no request is left out; what was brought has been stepped over or stands in
the window; a source that is done is not asked. -/
structure Kept (source : σ) (size : Nat) (whole : Bytes) (t : Traced σ) : Prop where
  capacity : t.reader.capacity = size
  brought : Source.brought source size (Log.brought t.log).length =
    (Log.brought t.log, t.reader.source)
  window : (Log.brought t.log).flatten =
    Log.taken t.log ++ t.reader.window.toList.drop t.reader.position
  exhausted : [] ∈ Log.brought t.log → t.reader.exhausted = true
  asked : Log.Asked t.log
  whole : Log.taken t.log ++ t.reader.unread.bytes = whole

namespace Kept

variable {source : σ} {size : Nat} {whole : Bytes} {t t' : Traced σ}

theorem peek (h : Kept source size whole t) {look : Look}
    (h_look : Traced.peek t = (look, t')) : Kept source size whole t' := by
  obtain ⟨-, rfl⟩ := Prod.mk.inj h_look
  have h_whole := h.whole
  rw [← t.reader.bytes_unread_peek] at h_whole
  rcases t.reader.peek_cases with ⟨b, h_peek, h_request⟩ | ⟨h_peek, h_request⟩ |
    ⟨h_window, h_exhausted, h_peek, h_request⟩
  case inr.inr =>
    obtain ⟨h_source, h_capacity, h_drop, h_end⟩ := ReadAhead.refill_spec h_window
    -- The window is used up, so all that was brought has been stepped over.
    have h_taken : (Log.brought t.log).flatten = Log.taken t.log := by
      rw [h.window, ReadAhead.drop_window_nil h_window, List.append_nil]
    have h_open : [] ∉ Log.brought t.log := by
      intro h_mem
      rw [h.exhausted h_mem] at h_exhausted
      cases h_exhausted
    rw [h_peek] at h_whole
    rw [h_peek, h_request]
    refine ⟨h_capacity.trans h.capacity, ?_, ?_, ?_, ?_, ?_⟩
    · dsimp only
      rw [Log.brought_append, Log.brought_some, List.length_append, List.length_singleton,
        Source.brought, h.brought, h_source, h.capacity]
    · simp [h_taken, h_drop]
    · simpa [h_open] using h_end
    · exact h.asked.concat fun _ _ => ⟨h_taken, h_open⟩
    · simpa using h_whole
  -- No request is made, and the reader stays as it is.
  all_goals
    rw [h_peek] at h_whole
    rw [h_peek, h_request]
    refine ⟨h.capacity, ?_, ?_, ?_, ?_, ?_⟩
    · simpa using h.brought
    · simpa using h.window
    · simpa using h.exhausted
    · exact h.asked.concat (by rintro _ ⟨⟩)
    · simpa using h_whole

theorem advance (h : Kept source size whole t') {b : UInt8}
    (h_peek : Traced.peek t = (.byte b, t')) : Kept source size whole (Traced.advance t') := by
  have h_window : t'.reader.window[t'.reader.position]? = some b := by
    obtain ⟨h_look, rfl⟩ := Prod.mk.inj h_peek
    exact ReadAhead.window_of_peek (Prod.ext h_look rfl)
  obtain ⟨h_drop, h_unread⟩ := ReadAhead.advance_spec h_window
  have h_reader : t'.reader.advance.source = t'.reader.source ∧
      t'.reader.advance.capacity = t'.reader.capacity ∧
      t'.reader.advance.exhausted = t'.reader.exhausted := by
    simp [ReadAhead.advance, h_window]
  obtain ⟨h_source, h_capacity, h_exhausted⟩ := h_reader
  rw [advance_eq h_peek]
  refine ⟨h_capacity.trans h.capacity, ?_, ?_, ?_, ?_, ?_⟩
  · simpa [h_source] using h.brought
  · simpa [h_drop] using h.window
  · simpa [h_exhausted] using h.exhausted
  · exact h.asked.concat (by rintro _ ⟨⟩)
  · simpa [h_unread] using h.whole

theorem scan (h : Kept source size whole t) (comments : Bool) (mode : Token.Mode) :
    Kept source size whole (Token.scan comments mode t).2 := by
  fun_induction Token.scan comments mode t with
  | case1 mode t t' h_peek | case2 mode t m t' h_peek => exact h.peek h_peek
  | case3 mode t b t' h_peek next h_step ih => exact ih ((h.peek h_peek).advance h_peek)
  | case4 mode t b t' h_peek token h_step | case6 mode t b t' h_peek cause h_step =>
    exact (h.peek h_peek).advance h_peek
  | case5 mode t b t' h_peek token h_step => exact h.peek h_peek

end Kept

/-- Before anything is read, the log is empty and the whole text lies ahead. -/
theorem kept_start (source : σ) (size : Nat) :
    Kept source (max size 1) (Source.delivered source (max size 1)).1
      ⟨.ofSource source size, []⟩ where
  capacity := rfl
  brought := rfl
  window := rfl
  exhausted := by simp [Log.brought]
  asked := Log.asked_nil
  whole := rfl

end Traced

/-! ## What a token is looked at for -/

namespace Token

variable {comments : Bool}

/-- What a verdict says of a bare string: it goes on with a byte of its own, and it alone ends
before a byte, which is none of its own. -/
def Verdict.FitsBare (mode : Mode) (b : UInt8) : Verdict → Prop
  | .more (.bare _) => isBareByte b = true
  | .before _ => (∃ read, mode = .bare read) ∧ isBareByte b = false
  | _ => True

theorem Mode.fitsBare_step (mode : Mode) (b : UInt8) :
    (mode.step comments b).FitsBare mode b := by
  have h_begin : (Mode.begin comments b).FitsBare mode b := by
    unfold Mode.begin
    repeat' split
    all_goals first | assumption | trivial
  cases mode with
  | fresh =>
    rw [Mode.step]
    split
    · trivial
    · exact h_begin
  | blank => exact h_begin
  | bare read =>
    rw [Mode.step]
    split
    · assumption
    · rename_i h_bare
      exact ⟨⟨read, rfl⟩, Bool.eq_false_iff.mpr h_bare⟩
  | escape read =>
    rw [Mode.step, Mode.afterBackslash]
    repeat' split
    all_goals trivial
  | hexLow read high =>
    rw [Mode.step]
    unfold Mode.ofHex
    repeat' split
    all_goals trivial
  | markSecond | markThird | slash | comment | quoted read | hex read =>
    rw [Mode.step]
    repeat' split
    all_goals trivial

/-- Where a text may end, it ends behind a bare string or with no further token. -/
theorem Mode.finish_cases {mode : Mode} {token : Token} (h : mode.finish = .ok token) :
    (∃ read, mode = .bare read) ∨ token = .ended := by
  cases mode with
  | bare read => exact Or.inl ⟨read, rfl⟩
  | fresh | blank | comment => exact Or.inr (Except.ok.inj h).symm
  | markSecond | markThird | slash | quoted read | escape read | hex read | hexLow read high =>
    cases h

/-- Each look at a token is needed, and nothing is looked at in vain behind it, if there is one.
Within a bare string the last thing done is to step over one of its bytes. -/
theorem needed_scan {σ : Type} [Source σ] {mode : Mode} {t : Traced σ}
    (h : Log.Needed False t.log) (h_bare : ∀ read, mode = .bare read → Log.EndsBare t.log) :
    Log.Needed (∀ token, (scan comments mode t).1 = .ok token → token = .ended)
      (scan comments mode t).2.log := by
  fun_induction scan comments mode t with
  | case1 mode t t' h_peek =>
    obtain ⟨bytes, h_log⟩ := Traced.log_of_peek h_peek
    rw [h_log]
    refine (h.imp False.elim).looked bytes ?_
    -- At the end of the text only a bare string is a token.
    cases h_finish : mode.finish with
    | error cause => exact Or.inr (by rintro token ⟨⟩)
    | ok token =>
      rcases Mode.finish_cases h_finish with ⟨read, h_mode⟩ | h_ended
      · exact Or.inl (h_bare read h_mode)
      · refine Or.inr ?_
        intro token' h_token
        exact (Except.ok.inj h_token) ▸ h_ended
  | case2 mode t m t' h_peek =>
    obtain ⟨bytes, h_log⟩ := Traced.log_of_peek h_peek
    rw [h_log]
    refine (h.imp False.elim).looked bytes ?_
    rintro token ⟨⟩
  | case3 mode t b t' h_peek next h_step ih =>
    obtain ⟨bytes, h_log⟩ := Traced.log_of_peek h_peek
    have h_took := Traced.log_advance h_peek
    rw [h_log] at h_took
    refine ih (h_took ▸ h.took bytes b) ?_
    -- If the byte leads into a bare string or further in one, it is one of its bytes.
    rintro read rfl
    have h_fits := @Mode.fitsBare_step comments mode b
    rw [h_step] at h_fits
    exact ⟨_, b, h_took, h_fits⟩
  | case4 mode t b t' h_peek token h_step | case6 mode t b t' h_peek cause h_step =>
    obtain ⟨bytes, h_log⟩ := Traced.log_of_peek h_peek
    rw [Traced.log_advance h_peek, h_log]
    exact (h.imp False.elim).took bytes b
  | case5 mode t b t' h_peek token h_step =>
    obtain ⟨bytes, h_log⟩ := Traced.log_of_peek h_peek
    have h_fits := @Mode.fitsBare_step comments mode b
    rw [h_step] at h_fits
    obtain ⟨⟨read, h_mode⟩, h_other⟩ := h_fits
    rw [h_log]
    exact (h.imp False.elim).looked bytes (Or.inr ⟨h_bare read h_mode, h_other⟩)

theorem needed_scan_between {σ : Type} [Source σ] {t : Traced σ}
    (h : Log.Needed False t.log) (comments : Bool) {mode : Mode} (h_mode : mode.IsBetween) :
    Log.Needed (∀ token, (scan comments mode t).1 = .ok token → token = .ended)
      (scan comments mode t).2.log := by
  refine needed_scan h ?_
  rintro read rfl
  rcases h_mode with h_bare | h_bare
  · cases h_bare
  · cases h_bare

end Token
end PropertyText
