/-
  PropertyText.Proofs.Grammar.Comments

  Comments are blank.  A text in which each byte of a comment is replaced by a space
  (`Place.blanked`) is read without comments as the text itself is with them, token by token
  and fault by fault, if every slash outside of quotes belongs to a comment (`Place.Tidy`).
  Main statement: `Stream.transcript_eq_of_blanked`.
-/
import PropertyText.Proofs.Grammar.Load
import PropertyText.Proofs.Source.Delivered
import PropertyText.Source.Scripted

namespace PropertyText

open Grammar
open Token (Mode Verdict)

/-! ## Where comments stand -/

/-- Where a byte of a text stands. -/
inductive Place where
  | outside
  | comment
  | quoted
  /-- Between quotes, behind a backslash. -/
  | escaped
  deriving DecidableEq, Repr

namespace Place

/-- The place behind a byte.  Outside of quotes two slashes begin a comment, which goes on up to
the next newline. -/
def behind (place : Place) (b : UInt8) (rest : Bytes) : Place :=
  match place with
  | .outside =>
    if b = Ascii.quote then .quoted
    else if b = Ascii.slash ∧ rest.head? = some Ascii.slash then .comment
    else .outside
  | .comment => if b = Ascii.newline then .outside else .comment
  | .quoted =>
    if b = Ascii.quote then .outside
    else if b = Ascii.backslash then .escaped
    else .quoted
  | .escaped => .quoted

/-- A byte belongs to a comment if it leads into one or further in one; a space stands for it. -/
def blank (place : Place) (b : UInt8) (rest : Bytes) : UInt8 :=
  if place.behind b rest = .comment then Ascii.space else b

/-- The text with each byte of a comment replaced by a space. -/
def blanked : Place → Bytes → Bytes
  | _, [] => []
  | place, b :: rest => place.blank b rest :: (place.behind b rest).blanked rest

/-- Every slash that does not stand between quotes begins a comment or lies in one. -/
def Tidy : Place → Bytes → Prop
  | _, [] => True
  | place, b :: rest =>
    (place = .outside → b = Ascii.slash → rest.head? = some Ascii.slash) ∧
      (place.behind b rest).Tidy rest

def decidableTidy : (place : Place) → (text : Bytes) → Decidable (place.Tidy text)
  | _, [] => .isTrue trivial
  | place, b :: rest =>
    @instDecidableAnd _ _ inferInstance ((place.behind b rest).decidableTidy rest)

instance (place : Place) (text : Bytes) : Decidable (place.Tidy text) :=
  place.decidableTidy text

variable {place place' : Place} {b : UInt8} {rest : Bytes}

theorem blank_of_ne (h : place.behind b rest ≠ .comment) : place.blank b rest = b := if_neg h

theorem blank_of_comment (h : place.behind b rest = .comment) :
    place.blank b rest = Ascii.space := if_pos h

/-- A newline ends a comment and does not belong to it, so lines stay where they are. -/
theorem newlines_blank (place : Place) (b : UInt8) (rest : Bytes) :
    newlines [place.blank b rest] = newlines [b] := by
  by_cases h : place.behind b rest = .comment
  · have h_b : b ≠ Ascii.newline := by
      rintro rfl
      cases place <;> simp [behind, Ascii.newline, Ascii.quote, Ascii.slash, Ascii.backslash] at h
    rw [blank_of_comment h]
    simp [newlines, h_b, show Ascii.space ≠ Ascii.newline by decide]
  · rw [blank_of_ne h]

theorem behind_outside_of_ne (h_quote : b ≠ Ascii.quote) (h_slash : b ≠ Ascii.slash) :
    Place.outside.behind b rest = .outside := by
  simp [behind, h_quote, h_slash]

theorem behind_quoted_of_digit {digit : UInt8} {n : Nat} (h : Ascii.hexValue? digit = some n)
    (rest : Bytes) : Place.quoted.behind digit rest = .quoted := by
  have h_quote : digit ≠ Ascii.quote := by rintro rfl; cases h
  have h_backslash : digit ≠ Ascii.backslash := by rintro rfl; cases h
  simp [behind, h_quote, h_backslash]

/-- Between quotes every byte is left. -/
theorem blank_quoted (b : UInt8) (rest : Bytes) : Place.quoted.blank b rest = b := by
  apply blank_of_ne
  unfold behind
  dsimp only
  repeat' split
  all_goals simp

/-- Outside of quotes only a slash may be replaced. -/
theorem blank_outside_of_ne (h : b ≠ Ascii.slash) : Place.outside.blank b rest = b := by
  apply blank_of_ne
  unfold behind
  dsimp only
  repeat' split
  all_goals simp_all

theorem blank_outside_slash (rest : Bytes) :
    Place.outside.blank Ascii.slash rest = Ascii.slash ∨
      Place.outside.blank Ascii.slash rest = Ascii.space := by
  by_cases h : Place.outside.behind Ascii.slash rest = .comment
  · exact Or.inr (blank_of_comment h)
  · exact Or.inl (blank_of_ne h)

/-! ## Texts without comments -/

/-- A text leads from one place to another past neither a comment nor a slash that belongs to
none. -/
def Passes (place : Place) (text : Bytes) (place' : Place) : Prop :=
  ∀ rest, place.blanked (text ++ rest) = text ++ place'.blanked rest ∧
    (place'.Tidy rest → place.Tidy (text ++ rest))

theorem Passes.nil (place : Place) : Passes place [] place := fun _ => ⟨rfl, id⟩

theorem Passes.append {front back : Bytes} {middle : Place} (h_front : Passes place front middle)
    (h_back : Passes middle back place') : Passes place (front ++ back) place' := by
  intro rest
  obtain ⟨h_blanked, h_tidy⟩ := h_front (back ++ rest)
  obtain ⟨h_blanked', h_tidy'⟩ := h_back rest
  rw [List.append_assoc]
  refine ⟨?_, fun h => h_tidy (h_tidy' h)⟩
  rw [h_blanked, h_blanked', List.append_assoc]

/-- One byte more at the front. -/
theorem Passes.cons {middle : Place} {text : Bytes} (h_behind : ∀ rest, place.behind b rest = middle)
    (h_middle : middle ≠ .comment) (h_slash : place = .outside → b ≠ Ascii.slash)
    (h : Passes middle text place') : Passes place (b :: text) place' := by
  intro rest
  obtain ⟨h_blanked, h_tidy⟩ := h rest
  have h_next := h_behind (text ++ rest)
  have h_same : place.blank b (text ++ rest) = b := blank_of_ne (by rwa [h_next])
  refine ⟨?_, ?_⟩
  · rw [List.cons_append, blanked, h_same, h_next, h_blanked]
    rfl
  · intro h_rest
    refine ⟨fun h_place h_b => absurd h_b (h_slash h_place), ?_⟩
    show (place.behind b (text ++ rest)).Tidy (text ++ rest)
    rw [h_next]
    exact h_tidy h_rest

theorem Passes.plain {text : Bytes} (h_quote : b ≠ Ascii.quote) (h_slash : b ≠ Ascii.slash)
    (h : Passes .outside text place') : Passes .outside (b :: text) place' :=
  .cons (fun _ => behind_outside_of_ne h_quote h_slash) (by simp) (fun _ => h_slash) h

/-- Whatever stands between quotes, slashes included, is left as it is. -/
theorem passes_quoted {raw text : Bytes} (h : Quoted raw text) : Passes .quoted raw .quoted := by
  have h_backslash : ∀ rest, Place.quoted.behind Ascii.backslash rest = .escaped := fun _ => rfl
  induction h with
  | nil => exact .nil _
  | plain h_quote h_backslash _ ih =>
    exact .cons (fun _ => by simp [behind, h_quote, h_backslash]) (by simp) (by simp) ih
  -- An escape leads away for one byte, which may be a quote, and then back.
  | letter _ _ ih =>
    exact .cons h_backslash (by simp) (by simp) (.cons (fun _ => rfl) (by simp) (by simp) ih)
  | @hex high low h l raw text h_high h_low _ _ _ ih =>
    have h_first : ∀ rest, Place.quoted.behind high rest = .quoted := behind_quoted_of_digit h_high
    have h_second : ∀ rest, Place.quoted.behind low rest = .quoted := behind_quoted_of_digit h_low
    refine .cons h_backslash (by simp) (by simp) (.cons (fun _ => rfl) (by simp) (by simp) ?_)
    exact .cons h_first (by simp) (by simp) (.cons h_second (by simp) (by simp) ih)

theorem passes_quotation {raw text : Bytes} (h : Quoted raw text) :
    Passes .outside (Ascii.quote :: raw ++ [Ascii.quote]) .outside := by
  have h_end : Passes .quoted [Ascii.quote] .outside :=
    .cons (fun _ => rfl) (by simp) (by simp) (.nil _)
  exact .cons (fun _ => rfl) (by simp) (fun _ => by decide) ((passes_quoted h).append h_end)

theorem passes_of_forall_bare {text : Bytes} (h : text.all isBareByte = true) :
    Passes .outside text .outside := by
  induction text with
  | nil => exact .nil _
  | cons b text ih =>
    rw [List.all_cons, Bool.and_eq_true] at h
    have h_quote : b ≠ Ascii.quote := by rintro rfl; cases h.1
    have h_slash : b ≠ Ascii.slash := by rintro rfl; cases h.1
    exact .plain h_quote h_slash (ih h.2)

theorem passes_lexeme {token : Token} {raw : Bytes} (h : Lexeme token raw) :
    Passes .outside raw .outside := by
  cases h with
  | colon | openBrace | closeBrace => exact .plain (by decide) (by decide) (.nil _)
  | bare h_bare =>
    rw [isBare, Bool.and_eq_true] at h_bare
    exact passes_of_forall_bare h_bare.2
  | quoted h_raw => exact passes_quotation h_raw

theorem passes_separator {text : Bytes} (h : Separator false text) :
    Passes .outside text .outside := by
  induction h with
  | nil => exact .nil _
  | @blank b text h_blank _ ih =>
    have h_quote : b ≠ Ascii.quote := by rintro rfl; cases h_blank
    have h_slash : b ≠ Ascii.slash := by rintro rfl; cases h_blank
    exact .plain h_quote h_slash ih
  | comment h_comments => cases h_comments

theorem passes_tokens {text rest : Bytes} {tokens : List Token}
    (h : Tokens false text tokens rest) : Passes .outside text .outside := by
  induction h with
  | nil => exact .nil _
  | cons h_separator h_lexeme _ _ ih =>
    exact ((passes_separator h_separator).append (passes_lexeme h_lexeme)).append ih

/-- What is a document without comments has none, and all its slashes stand between quotes. -/
theorem passes_document {text : Bytes} {t : Tree} (h : Document false text t) :
    Passes .outside text .outside := by
  cases h with
  | @intro taken rest tokens t h_start h_trailer h_body =>
  cases h_start with
  | @intro front text rest tokens h_opening h_tokens =>
  have h_front : Passes .outside front .outside := by
    cases h_opening with
    | mark =>
      exact .plain (by decide) (by decide)
        (.plain (by decide) (by decide) (.plain (by decide) (by decide) (.nil _)))
    | none => exact .nil _
  refine (h_front.append (passes_tokens h_tokens)).append ?_
  cases h_trailer with
  | separator h_separator => exact passes_separator h_separator
  | comment h_comments => cases h_comments

end Place

/-! ## A byte of the blanked text -/

namespace Token

open Place

/-- Where the byte stands that a mode takes next. -/
def Mode.place : Mode → Place
  | .slash | .comment => .comment
  | .quoted _ | .hex _ | .hexLow _ _ => .quoted
  | .escape _ => .escaped
  | _ => .outside

/-- The mode that takes the blanked text where another takes the text itself. -/
def Mode.plain : Mode → Mode
  | .slash | .comment => .blank
  | mode => mode

def Verdict.plain : Verdict → Verdict
  | .more mode => .more mode.plain
  | verdict => verdict

/-- What is said of a byte agrees with the place of the byte and the place behind it.  A first
slash is read only where a second one follows. -/
def Verdict.Stands (place : Place) (b : UInt8) (rest : Bytes) : Verdict → Prop
  | .more next =>
    next.place = place.behind b rest ∧ (next = .slash → rest.head? = some Ascii.slash)
  | .done _ => place.behind b rest = .outside
  | .before _ => place = .outside
  | .refused _ => True

variable {mode : Mode} {b : UInt8} {rest : Bytes} {failure : Option String} {line : Nat}

theorem Mode.place_of_isBetween (h : mode.IsBetween) : mode.place = .outside := by
  rcases h with rfl | rfl <;> rfl

theorem Mode.plain_of_isBetween (h : mode.IsBetween) : mode.plain = mode := by
  rcases h with rfl | rfl <;> rfl

/-- Between tokens, a slash leads into a comment, where a space stands for it. -/
theorem begin_blanked (h_tidy : b = Ascii.slash → rest.head? = some Ascii.slash) :
    Mode.begin false (Place.outside.blank b rest) = (Mode.begin true b).plain ∧
      (Mode.begin true b).Stands .outside b rest := by
  by_cases h_slash : b = Ascii.slash
  · subst h_slash
    have h_second := h_tidy rfl
    have h_behind : Place.outside.behind Ascii.slash rest = .comment := by
      rw [behind, if_neg (by decide), if_pos ⟨rfl, h_second⟩]
    rw [blank_of_comment h_behind]
    exact ⟨rfl, h_behind.symm, fun _ => h_second⟩
  by_cases h_quote : b = Ascii.quote
  · subst h_quote
    exact ⟨rfl, rfl, by simp⟩
  -- Any other byte is left where it is and leads nowhere.
  · have h_behind : Place.outside.behind b rest = .outside := behind_outside_of_ne h_quote h_slash
    have h_begin : Mode.begin true b = Mode.begin false b := by simp [Mode.begin, h_slash]
    rw [blank_of_ne (by simp [h_behind]), h_begin]
    unfold Mode.begin
    repeat' split
    all_goals simp_all [Verdict.plain, Mode.plain, Verdict.Stands, Mode.place]

theorem blank_outside_eq_iff {c : UInt8} (h_slash : c ≠ Ascii.slash) (h_space : c ≠ Ascii.space) :
    Place.outside.blank b rest = c ↔ b = c := by
  by_cases h : b = Ascii.slash
  · subst h
    rcases blank_outside_slash rest with h | h
    · simp [h]
    · simp [h, h_slash.symm, h_space.symm]
  · rw [blank_outside_of_ne h]

theorem isBareByte_blank_outside (b : UInt8) (rest : Bytes) :
    isBareByte (Place.outside.blank b rest) = isBareByte b := by
  by_cases h : b = Ascii.slash
  · subst h
    rcases blank_outside_slash rest with h | h
    · rw [h]
    · rw [h]
      rfl
  · rw [blank_outside_of_ne h]

/-- The byte that a mark goes on with is left, and no other byte becomes it. -/
theorem expected_blanked {next : Mode} {c : UInt8} {cause : Malformation}
    (h_next : next = .markThird ∨ next = .blank) (h_slash : c ≠ Ascii.slash)
    (h_space : c ≠ Ascii.space) (h_quote : c ≠ Ascii.quote) :
    (if Place.outside.blank b rest == c then Verdict.more next else .refused cause) =
        (if b == c then Verdict.more next else .refused cause).plain ∧
      (if b == c then Verdict.more next else .refused cause).Stands .outside b rest := by
  simp only [beq_iff_eq, blank_outside_eq_iff h_slash h_space]
  split
  · rename_i h_b
    subst h_b
    have h_behind : Place.outside.behind b rest = .outside := behind_outside_of_ne h_quote h_slash
    rcases h_next with rfl | rfl <;> exact ⟨rfl, h_behind.symm, by simp⟩
  · exact ⟨rfl, trivial⟩

/-- A byte of the blanked text means what the byte itself does. -/
theorem step_blanked (h_tidy : mode.place = .outside → b = Ascii.slash →
      rest.head? = some Ascii.slash) (h_slash : mode = .slash → b = Ascii.slash) :
    mode.plain.step false (mode.place.blank b rest) = (mode.step true b).plain ∧
      (mode.step true b).Stands mode.place b rest := by
  cases mode with
  | fresh =>
    -- Blanking makes no first byte of a mark and removes none.
    show (if Place.outside.blank b rest == 0xef then Verdict.more .markSecond
      else Mode.begin false (Place.outside.blank b rest)) = _ ∧ _
    have h_begin := begin_blanked (h_tidy rfl)
    have h_same : Place.outside.blank b rest = 0xef ↔ b = 0xef :=
      blank_outside_eq_iff (by decide) (by decide)
    by_cases h_mark : b = 0xef
    · rw [if_pos (beq_iff_eq.mpr (h_same.mpr h_mark))]
      subst h_mark
      exact ⟨rfl, (behind_outside_of_ne (by decide) (by decide)).symm, by simp⟩
    · have h_step : Mode.fresh.step true b = Mode.begin true b := if_neg (by simpa using h_mark)
      rw [if_neg (mt (fun h => h_same.mp (beq_iff_eq.mp h)) h_mark), h_step]
      exact h_begin
  | markSecond => exact expected_blanked (Or.inl rfl) (by decide) (by decide) (by decide)
  | markThird => exact expected_blanked (Or.inr rfl) (by decide) (by decide) (by decide)
  | blank => exact begin_blanked (h_tidy rfl)
  | slash =>
    obtain rfl := h_slash rfl
    exact ⟨rfl, rfl, by simp⟩
  | comment =>
    by_cases h_newline : b = Ascii.newline
    · subst h_newline
      exact ⟨rfl, rfl, by simp⟩
    · have h_behind : Place.comment.behind b rest = .comment := if_neg h_newline
      have h_step : Mode.comment.step true b = .more .comment := if_neg (by simpa using h_newline)
      show Mode.begin false (Place.comment.blank b rest) = _ ∧ _
      rw [blank_of_comment h_behind, h_step]
      exact ⟨rfl, h_behind.symm, by simp⟩
  | bare read =>
    show (if isBareByte (Place.outside.blank b rest) then
        Verdict.more (.bare (Place.outside.blank b rest :: read))
      else .before (.text read.reverse)) = _ ∧ _
    rw [isBareByte_blank_outside]
    by_cases h_bare : isBareByte b = true
    · have h_b : b ≠ Ascii.slash := by rintro rfl; cases h_bare
      have h_quote : b ≠ Ascii.quote := by rintro rfl; cases h_bare
      have h_step : (Mode.bare read).step true b = .more (.bare (b :: read)) := if_pos h_bare
      rw [if_pos h_bare, blank_outside_of_ne h_b, h_step]
      exact ⟨rfl, (behind_outside_of_ne h_quote h_b).symm, by simp⟩
    · have h_step : (Mode.bare read).step true b = .before (.text read.reverse) := if_neg h_bare
      rw [if_neg h_bare, h_step]
      exact ⟨rfl, rfl⟩
  | quoted read =>
    show Mode.step false (.quoted read) (Place.quoted.blank b rest) = _ ∧ _
    rw [blank_quoted]
    simp only [Mode.step]
    repeat' split
    all_goals simp_all [Verdict.plain, Mode.plain, Verdict.Stands, Mode.place, behind]
  | escape read =>
    show Mode.afterBackslash read (Place.escaped.blank b rest) = _ ∧ _
    rw [blank_of_ne (by simp [behind])]
    simp only [Mode.step, Mode.afterBackslash]
    repeat' split
    all_goals simp_all [Verdict.plain, Mode.plain, Verdict.Stands, Mode.place, behind]
  | hex read =>
    show Mode.step false (.hex read) (Place.quoted.blank b rest) = _ ∧ _
    rw [blank_quoted]
    simp only [Mode.step]
    split
    · rename_i high h_high
      exact ⟨rfl, (behind_quoted_of_digit h_high rest).symm, by simp⟩
    · exact ⟨rfl, trivial⟩
  | hexLow read high =>
    show Mode.step false (.hexLow read high) (Place.quoted.blank b rest) = _ ∧ _
    rw [blank_quoted]
    simp only [Mode.step]
    split
    · rename_i low h_low
      unfold Mode.ofHex
      repeat' split
      · exact ⟨rfl, trivial⟩
      · exact ⟨rfl, (behind_quoted_of_digit h_low rest).symm, by simp⟩
      · exact ⟨rfl, trivial⟩
    · exact ⟨rfl, trivial⟩

/-! ## Between quotes -/

/-- The modes in which a quotation has begun and not ended. -/
def Mode.IsQuoting (mode : Mode) : Prop := mode.place = .quoted ∨ mode.place = .escaped

/-- A quotation goes on or ends, or is broken; it never becomes a comment. -/
theorem Mode.IsQuoting.of_more {comments : Bool} {next : Mode} (h : mode.IsQuoting)
    (h_step : mode.step comments b = .more next) : next.IsQuoting := by
  cases mode with
  | fresh | markSecond | markThird | blank | slash | comment | bare _ =>
    rcases h with h | h <;> cases h
  | quoted read =>
    simp only [Mode.step] at h_step
    repeat' split at h_step
    all_goals cases h_step
    · exact Or.inr rfl
    · exact Or.inl rfl
  | escape read =>
    simp only [Mode.step, Mode.afterBackslash] at h_step
    repeat' split at h_step
    all_goals cases h_step
    all_goals exact Or.inl rfl
  | hex read =>
    simp only [Mode.step] at h_step
    split at h_step <;> cases h_step
    exact Or.inl rfl
  | hexLow read high =>
    simp only [Mode.step, Mode.ofHex] at h_step
    repeat' split at h_step
    all_goals cases h_step
    exact Or.inl rfl

theorem Mode.IsQuoting.step_comments (h : mode.IsQuoting) (b : UInt8) :
    mode.step true b = mode.step false b := by
  cases mode with
  | fresh | blank => rcases h with h | h <;> cases h
  | markSecond | markThird | slash | comment | bare _ | quoted _ | escape _ | hex _ | hexLow _ _ =>
    rfl

/-- While a quotation lasts, it makes no difference whether comments are allowed. -/
theorem scan_of_isQuoting {ι : Type} [Input ι] (h : mode.IsQuoting) (i : ι) :
    scan true mode i = scan false mode i := by
  -- The induction is on the run with comments, which stays within the quotation.
  fun_induction scan true mode i with
  | case1 mode i i' h_peek => rw [scan_of_ended h_peek]
  | case2 mode i m i' h_peek => rw [scan_of_failed h_peek]
  | case3 mode i b i' h_peek next h_step ih =>
    rw [ih (h.of_more h_step), scan_of_byte h_peek, ← h.step_comments, h_step]
  | case4 mode i b i' h_peek t h_step | case5 mode i b i' h_peek t h_step
  | case6 mode i b i' h_peek cause h_step =>
    rw [scan_of_byte h_peek, ← h.step_comments, h_step]

end Token

/-! ## A token of the blanked text -/

/-- The text that is still to be read with its comments blanked. -/
def Unread.blanked (place : Place) (u : Unread) : Unread :=
  { u with bytes := place.blanked u.bytes }

namespace Token

variable {mode : Mode} {b : UInt8} {rest : Bytes} {failure : Option String} {line : Nat}

/-- A result without comments and one with them: the same token or fault on the same line, and
behind a token the same text. -/
structure ReadAlike (a a' : Except Fault Token × Unread) : Prop where
  result : a'.1 = a.1
  line : a'.2.line = a.2.line
  unread : ∀ token, a.1 = .ok token →
    a'.2 = a.2.blanked .outside ∧ Place.outside.Tidy a.2.bytes

theorem scan_blanked {u : Unread} (h_tidy : mode.place.Tidy u.bytes)
    (h_slash : mode = .slash → u.bytes.head? = some Ascii.slash) :
    ReadAlike (scan true mode u) (scan false mode.plain (u.blanked mode.place)) := by
  obtain ⟨bytes, failure, line⟩ := u
  -- Both machines take one byte, and a verdict says where the bytes behind it stand.
  induction bytes generalizing mode line with
  | nil =>
    cases failure with
    | some message =>
      rw [scan_failed]
      exact ⟨congrArg Prod.fst scan_failed, congrArg (·.2.line) scan_failed, nofun⟩
    | none =>
      -- The machine does not stand behind a first slash, for no second one follows.
      have h_finish : mode.plain.finish = mode.finish := by
        cases mode with
        | slash => cases h_slash rfl
        | _ => rfl
      have h_scan : scan false mode.plain ((⟨[], none, line⟩ : Unread).blanked mode.place) =
          (mode.finish.mapError .malformed, ⟨[], none, line⟩) := by
        rw [← h_finish]
        exact scan_nil
      rw [scan_nil, h_scan]
      exact ⟨rfl, rfl, fun _ _ => ⟨rfl, trivial⟩⟩
  | cons b rest ih =>
    obtain ⟨h_first, h_rest⟩ := h_tidy
    obtain ⟨h_plain, h_stands⟩ := step_blanked h_first fun h => Option.some.inj (h_slash h)
    have h_line : line + newlines [mode.place.blank b rest] = line + newlines [b] := by
      rw [mode.place.newlines_blank]
    show ReadAlike _ (scan false mode.plain
      ⟨mode.place.blank b rest :: (mode.place.behind b rest).blanked rest, failure, line⟩)
    cases h_step : mode.step true b with
    | more next =>
      rw [h_step] at h_plain h_stands
      obtain ⟨h_place, h_second⟩ := h_stands
      rw [scan_more h_step, scan_more h_plain, h_line, ← h_place]
      rw [← h_place] at h_rest
      exact ih _ h_rest h_second
    | done token =>
      rw [h_step] at h_plain h_stands
      have h_behind : mode.place.behind b rest = .outside := h_stands
      rw [h_behind] at h_rest
      rw [scan_done h_step, scan_done h_plain, h_line, h_behind]
      exact ⟨rfl, rfl, fun _ _ => ⟨rfl, h_rest⟩⟩
    | before token =>
      rw [h_step] at h_plain h_stands
      have h_place : mode.place = .outside := h_stands
      rw [h_place] at h_first h_rest
      rw [scan_before h_step, scan_before h_plain, h_place]
      exact ⟨rfl, rfl, fun _ _ => ⟨rfl, h_first, h_rest⟩⟩
    | refused cause =>
      rw [h_step] at h_plain
      rw [scan_refused h_step, scan_refused h_plain, h_line]
      exact ⟨rfl, rfl, nofun⟩

end Token

/-! ## Whole runs -/

namespace Stream

/-- A stream without comments over the blanked text of one with them.  Behind an error nothing
is read any more, and what is left of the texts does not count. -/
structure Blanked (s t : Stream Unread) : Prop where
  comments : s.comments = true
  same : t = { s with comments := false, input := t.input }
  line : t.input.line = s.input.line
  unread : s.error = none → t.input = s.input.blanked .outside ∧ Place.outside.Tidy s.input.bytes

theorem Blanked.behind {s t : Stream Unread} {input input' : Unread} (h : Blanked s t)
    (h_line : input'.line = input.line)
    (h_unread : input' = input.blanked .outside ∧ Place.outside.Tidy input.bytes) :
    Blanked (s.behind input) (t.behind input') :=
  ⟨h.comments, by rw [h.same]; rfl, h_line, fun _ => h_unread⟩

theorem Blanked.failedAt {s t : Stream Unread} {input input' : Unread} (h : Blanked s t)
    (h_line : input'.line = input.line) (e : Error) :
    Blanked (s.failedAt input e) (t.failedAt input' e) :=
  ⟨h.comments, by rw [h.same]; rfl, h_line, nofun⟩

theorem Blanked.takeToken {s t : Stream Unread} (h : Blanked s t) :
    t.takeToken.1 = s.takeToken.1 ∧ Blanked s.takeToken.2 t.takeToken.2 := by
  have h_same : t.error = s.error := by rw [h.same]
  cases h_error : s.error with
  | some e =>
    rw [Stream.takeToken, Stream.takeToken, h_same, h_error]
    exact ⟨rfl, h⟩
  | none =>
    -- Both machines begin between tokens, in the same mode.
    obtain ⟨h_input, h_tidy⟩ := h.unread h_error
    have h_place := Token.Mode.place_of_isBetween s.isBetween_mode
    have h_slash : s.mode = .slash → s.input.bytes.head? = some Ascii.slash := by
      intro h_mode
      rw [h_mode] at h_place
      cases h_place
    have h_alike := Token.scan_blanked (h_place ▸ h_tidy) h_slash
    rw [h_place, Token.Mode.plain_of_isBetween s.isBetween_mode, ← h_input] at h_alike
    have h_mode : t.mode = s.mode := by rw [h.same]; rfl
    have h_comments : t.comments = false := by rw [h.same]
    rw [takeToken_of_none h_error, takeToken_of_none (h_same.trans h_error), h_mode, h_comments,
      h.comments]
    obtain ⟨h_result, h_line, h_unread⟩ := h_alike
    -- The results are the same, so both are a fault or both are a token.
    rcases h_scan : Token.scan true s.mode s.input with ⟨fault | token, input⟩ <;>
      rcases h_scan' : Token.scan false s.mode t.input with ⟨fault' | token', input'⟩ <;>
      rw [h_scan, h_scan'] at h_result h_line <;> cases h_result
    · refine ⟨rfl, ?_⟩
      dsimp only
      rw [show Input.line input' = Input.line input from h_line]
      exact h.failedAt h_line _
    · rw [h_scan, h_scan'] at h_unread
      exact ⟨rfl, h.behind h_line (h_unread token rfl)⟩

/-- Every step that reads keeps the two together. -/
theorem likeness_blanked : Likeness Blanked where
  error h := by rw [h.same]
  finished h := by rw [h.same]
  path h := by rw [h.same]
  nextId h := by rw [h.same]
  line h := h.line
  record e := fun h =>
    ⟨h.comments, by rw [h.same]; rfl, h.line, fun h_none => absurd h_none (by simp [record])⟩
  openObject h := ⟨h.comments, by rw [h.same]; rfl, h.line, h.unread⟩
  close h := ⟨h.comments, by rw [h.same]; rfl, h.line, h.unread⟩
  finish h := ⟨h.comments, by rw [h.same], h.line, h.unread⟩
  takeToken h := h.takeToken

/-- A stream over the blanked text of a source answers as one over the text itself. -/
theorem transcript_ofSource_blanked {σ τ : Type} [Source σ] [Source τ] {source : σ} {blank : τ}
    {o p : ReaderOptions} {text : Bytes} {failure : Option String}
    (h_source : Source.delivered source (max o.bufferSize 1) = (text, failure))
    (h_blank : Source.delivered blank (max p.bufferSize 1) =
      (Place.outside.blanked text, failure))
    (h_tidy : Place.outside.Tidy text) (calls : List Call) :
    (ofSource blank (p.withComments false)).transcript calls =
      (ofSource source (o.withComments true)).transcript calls := by
  have h_start : Blanked (ofInput ⟨text, failure, 1⟩ true)
      (ofInput ⟨Place.outside.blanked text, failure, 1⟩ false) :=
    ⟨rfl, rfl, rfl, fun _ => ⟨rfl, h_tidy⟩⟩
  rw [← transcript_map ReadAhead.view_unread, ← transcript_map ReadAhead.view_unread,
    ReadAhead.map_unread_ofSource, ReadAhead.map_unread_ofSource]
  simp only [ReaderOptions.withComments, h_source, h_blank]
  exact likeness_blanked.transcript h_start calls

/-- Comments are blank.  Where every slash outside of quotes begins a comment or lies in one, a
sequence of requests is answered as without comments on the text with each byte of a comment
replaced by a space, with the same lines and the same error after each request.  A document that
is accepted without comments is read alike with them.  Between quotes a pair of slashes is never
taken for a comment: blanking leaves it, and the machine reads on as if there were no
comments. -/
theorem transcript_eq_of_blanked {σ τ : Type} [Source σ] [Source τ] (source : σ) (other : τ)
    (o p : ReaderOptions) (text : Bytes) (failure : Option String)
    (h_source : Source.delivered source (max o.bufferSize 1) = (text, failure)) :
    (Place.outside.Tidy text →
      Source.delivered other (max p.bufferSize 1) = (Place.outside.blanked text, failure) →
      ∀ calls, (ofSource source (o.withComments true)).transcript calls =
        (ofSource other (p.withComments false)).transcript calls) ∧
      (∀ f, Fields.ofBytes text (p.withComments false) = .ok f →
        Source.delivered other (max p.bufferSize 1) = (text, failure) →
        ∀ calls, (ofSource source (o.withComments true)).transcript calls =
          (ofSource other (p.withComments false)).transcript calls) ∧
      (∀ raw meant rest, Quoted raw meant →
        Place.outside.blanked (Ascii.quote :: raw ++ Ascii.quote :: rest) =
            Ascii.quote :: raw ++ Ascii.quote :: Place.outside.blanked rest ∧
          ∀ comments line, Token.scan comments .blank
              (⟨Ascii.quote :: raw ++ Ascii.quote :: rest, failure, line⟩ : Unread) =
            (.ok (.text meant), ⟨rest, failure, line + newlines raw⟩)) ∧
      ∀ mode : Mode, mode.IsQuoting → ∀ input : ReadAhead σ,
        Token.scan true mode input = Token.scan false mode input := by
  refine ⟨?_, ?_, ?_, ?_⟩
  · intro h_tidy h_other calls
    exact (transcript_ofSource_blanked h_source h_other h_tidy calls).symm
  · intro f h_accepted h_other calls
    -- What is accepted without comments has none, so it is its own blanked text.
    obtain ⟨t, h_document, -⟩ := Fields.exists_document h_accepted
    obtain ⟨h_blanked, h_tidy⟩ := Place.passes_document h_document []
    rw [List.append_nil] at h_blanked h_tidy
    have h_same : Place.outside.blanked text = text := h_blanked.trans (List.append_nil text)
    rw [← h_same] at h_other
    exact (transcript_ofSource_blanked h_source h_other (h_tidy trivial) calls).symm
  · intro raw meant rest h_quoted
    refine ⟨?_, ?_⟩
    · have h_passes := (Place.passes_quotation h_quoted rest).1
      simpa using h_passes
    · intro comments line
      have h_line : line + newlines (Ascii.quote :: raw) + newlines [Ascii.quote] =
          line + newlines raw := by
        rw [newlines_cons, show newlines [Ascii.quote] = 0 from rfl, Nat.zero_add, Nat.add_zero]
      rw [Token.scan_over (over_quote h_quoted), Token.scan_done rfl, List.reverse_reverse, h_line]
  · intro mode h_quoting input
    exact Token.scan_of_isQuoting h_quoting input

/-- A source that hands over one byte at a time and a text that stands ready. -/
theorem transcript_commented_eq :
    let text := Utf8.encode "a:\"//\"//\"\nb\x7b//\n\x7d"
    let source : ScriptedSource := { schedule := { pieces := #[1] }, rest := text }
    Place.outside.Tidy text ∧
      ∀ calls, (ofSource source (({} : ReaderOptions).withComments true)).transcript calls =
        (ofSource ({ rest := Place.outside.blanked text } : Slice)
          (({} : ReaderOptions).withComments false)).transcript calls := by
  intro text source
  have h_source : Source.delivered source (max ({} : ReaderOptions).bufferSize 1) = (text, none) := by
    decide +kernel
  have h_tidy : Place.outside.Tidy text := by decide +kernel
  refine ⟨h_tidy, ?_⟩
  exact (transcript_eq_of_blanked source ({ rest := Place.outside.blanked text } : Slice) {} {} text
    none h_source).1 h_tidy (Slice.delivered_eq _ _ (by decide))

end Stream
end PropertyText
