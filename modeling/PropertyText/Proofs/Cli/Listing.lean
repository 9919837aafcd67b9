/-
  PropertyText.Proofs.Cli.Listing

  What the command prints for a file.  A printer that goes into each object by recursion and
  the walk that keeps the objects around it on a stack come to the same properties and to the
  same end (`Cli.exists_tree_printObject`), so the lines that are printed are those of the tree
  that is loaded, as far as the document can be read.  Main statement: `Cli.print_file`.
-/
import PropertyText.Cli.Print
import PropertyText.Proofs.Grammar.Load
import PropertyText.Proofs.Stream.Invariant

namespace PropertyText

/-! ## Lines -/

namespace Cli

/-- The line of an event with so many objects around it; the end of an object has none. -/
def line (depth : Nat) : Event String → String
  | .field name value => indentation depth ++ name ++ " = \"" ++ value ++ "\"\n"
  | .opened name => indentation depth ++ name ++ ":\n"
  | .closed => ""

section

variable (printed name value : String) (depth : Nat)

theorem addLine_field :
    addLine (printed, depth) (.field name value) =
      (printed ++ line depth (.field name value), depth) := by
  simp [addLine, line, String.append_assoc]

theorem addLine_opened :
    addLine (printed, depth) (.opened name) = (printed ++ line depth (.opened name), depth + 1) := by
  simp [addLine, line, String.append_assoc]

end

end Cli

mutual

/-- The lines of a property: one for itself, and for an object those of what it holds, moved in
further. -/
def Value.lines (depth : Nat) (name : String) : Value → List String
  | .text value => [Cli.line depth (.field name value)]
  | .object inner => Cli.line depth (.opened name) :: Fields.lines (depth + 1) inner

/-- The lines of the properties of an object, one after the other. -/
def Fields.lines (depth : Nat) : List (String × Value) → List String
  | [] => []
  | (name, value) :: rest => value.lines depth name ++ Fields.lines depth rest

end

namespace Cli

theorem foldl_addLine_events (t : Tree) (printed : String) (depth : Nat) :
    (t.events.map Event.decoded).foldl addLine (printed, depth) =
      (printed ++ String.join (Fields.lines depth t.decoded), depth) := by
  induction t generalizing printed depth with
  | empty => simp [Tree.events, Tree.decoded, Fields.lines]
  | field name value rest ih =>
    have h_field : addLine (printed, depth) (Event.decoded (.field name value)) = _ :=
      addLine_field printed (Utf8.decode name) (Utf8.decode value) depth
    rw [Tree.events, List.map_cons, List.foldl_cons, h_field, ih, Tree.decoded, Fields.lines,
      Value.lines, List.singleton_append, String.join_cons, String.append_assoc]
  | object name inner rest ih_inner ih_rest =>
    have h_opened : addLine (printed, depth) (Event.decoded (.opened name)) = _ :=
      addLine_opened printed (Utf8.decode name) depth
    have h_closed (behind : String) :
        addLine (behind, depth + 1) (Event.decoded .closed) = (behind, depth) := rfl
    rw [Tree.events, List.cons_append, List.map_cons, List.map_append, List.map_cons,
      List.foldl_cons, List.foldl_append, List.foldl_cons, h_opened, ih_inner, h_closed, ih_rest,
      Tree.decoded, Fields.lines, Value.lines, List.cons_append, String.join_cons,
      String.join_append]
    simp only [String.append_assoc]

/-- The listing of the events of a tree consists of the lines of the tree. -/
theorem listing_events (t : Tree) :
    listing t.events = String.join (Fields.lines 0 t.decoded) := by
  rw [listing, foldl_addLine_events]
  exact String.empty_append

/-! ## Printing by recursion -/

variable {ι : Type} [Input ι]

/-- Prints what is left of an object: a line for each property, and behind the line of an object
what is printed of that, moved in further.  What follows an object is read from where the object
has ended, so it is part of the result that no input has come back by then. -/
def printObject (s : Stream ι) (object : ObjectId) (depth : Nat) :
    { printed : String × Stream ι // Input.left printed.2.input ≤ Input.left s.input } :=
  match h : s.next object with
  | (none, s') => ⟨("", s'), by simpa [h] using Stream.left_next_le s object⟩
  | (some ⟨name, .text value⟩, s') =>
    let rest := printObject s' object depth
    ⟨(line depth (Event.field name value).decoded ++ rest.1.1, rest.1.2),
      Nat.le_trans rest.2 (Nat.le_of_lt (Stream.left_next_lt h))⟩
  | (some ⟨name, .object child⟩, s') =>
    let inner := printObject s' child (depth + 1)
    let rest := printObject inner.1.2 object depth
    ⟨(line depth (Event.opened name).decoded ++ inner.1.1 ++ rest.1.1, rest.1.2),
      Nat.le_trans rest.2 (Nat.le_trans inner.2 (Nat.le_of_lt (Stream.left_next_lt h)))⟩
termination_by Input.left s.input
decreasing_by
  · exact Stream.left_next_lt h
  · exact Stream.left_next_lt h
  · exact Nat.lt_of_le_of_lt inner.2 (Stream.left_next_lt h)

/-- What the recursion prints of an object are the lines of a tree, and the walk with a stack goes
through the events of that tree to where the recursion ends. -/
theorem exists_tree_printObject (s : Stream ι) (object : ObjectId) (depth : Nat) :
    ∃ t : Tree,
      (printObject s object depth).1.1 = String.join (Fields.lines depth t.decoded) ∧
      ∀ seen outer, Stream.walkOnto seen s (object :: outer) =
        Stream.walkOnto
          (if outer.isEmpty then t.events.reverse ++ seen else .closed :: (t.events.reverse ++ seen))
          (printObject s object depth).1.2 outer := by
  fun_induction printObject s object depth with
  | case1 s object depth s' h_next =>
    refine ⟨.empty, rfl, fun seen outer => ?_⟩
    rw [Stream.walkOnto_of_none h_next]
    rfl
  | case2 s object depth name value s' h_next rest ih =>
    obtain ⟨t, h_lines, h_walk⟩ := ih
    refine ⟨.field name value t, ?_, fun seen outer => ?_⟩
    · rw [Tree.decoded, Fields.lines, Value.lines, List.singleton_append, String.join_cons, h_lines]
      rfl
    · rw [Stream.walkOnto_of_text h_next, h_walk]
      simp [Tree.events, rest]
  | case3 s object depth name child s' h_next inner rest ih_inner ih_rest =>
    obtain ⟨t, h_inside, h_inner⟩ := ih_inner
    obtain ⟨u, h_lines, h_rest⟩ := ih_rest
    refine ⟨.object name t u, ?_, fun seen outer => ?_⟩
    · rw [Tree.decoded, Fields.lines, Value.lines, List.cons_append, String.join_cons,
        String.join_append, h_inside, h_lines, String.append_assoc]
      rfl
    · rw [Stream.walkOnto_of_object h_next, h_inner, h_rest]
      simp [Tree.events, rest, inner]

/-- The recursion prints the lines of the tree that is read, and ends where reading ends. -/
theorem exists_tree_printed (s : Stream ι) :
    ∃ t : Tree, (s.walk rootId).1 = t.events ∧ (s.readFields rootId).1 = t.decoded ∧
      (printObject s rootId 0).1 =
        (String.join (Fields.lines 0 t.decoded), (s.readFields rootId).2) := by
  obtain ⟨t, h_printed, h_walkOnto⟩ := exists_tree_printObject s rootId 0
  have h_walk : s.walk rootId = (t.events, (printObject s rootId 0).1.2) := by
    have h_root := h_walkOnto [] []
    rw [Stream.walkOnto_nil] at h_root
    simpa [Stream.walk] using h_root
  have h_fields : s.readFields rootId = (t.decoded, (printObject s rootId 0).1.2) := by
    rw [Stream.readFields, h_walk, ← t.ofEvents_events]
  refine ⟨t, congrArg Prod.fst h_walk, congrArg Prod.fst h_fields, Prod.ext h_printed ?_⟩
  rw [h_fields]

/-! ## Printing along the walk -/

/-- How many objects are around a property, given the stream behind it: an object is open itself
then. -/
def around (handed : Property × Stream ι) : Nat :=
  handed.2.path.length - if handed.1.isObject then 2 else 1

/-- The line of a property that is handed out. -/
def lineOf (handed : Property × Stream ι) : String :=
  line (around handed) handed.1.event.decoded

theorem foldl_addLine_remaining (s : Stream ι) {depth : Nat} (h : s.Running)
    (h_path : s.path.length = depth + 1) (printed : String) :
    ((s.remaining.1.map Event.decoded).foldl addLine (printed, depth)).1 =
      printed ++ String.join (s.walked.map lineOf) := by
  induction s using Stream.step_induction generalizing depth printed with
  | h_stopped s h_stop => exact absurd h h_stop
  | h_step s _ ih =>
    obtain ⟨property, event, s', h_read, h_event, h_step⟩ := Stream.step_cases h
    rw [h_read] at ih
    cases h_step with
    | text name value input =>
      have h_line : lineOf (⟨name, .text value⟩, s.behind input) =
          line depth (Event.field name value).decoded := by
        simp [lineOf, around, Property.isObject, Property.event, h_path]
      have h_rest := ih h h_path (printed ++ line depth (Event.field name value).decoded)
      rw [Stream.remaining_of_some h_event, Stream.walked_of_some h_event, h_read]
      simpa [addLine_field, Event.decoded, Event.map, h_line, String.append_assoc] using h_rest
    | opened name input =>
      -- Behind its own line the object is among those that are open.
      have h_inside : (s.behind input).openObject.2.path.length = depth + 1 + 1 :=
        congrArg (· + 1) h_path
      have h_line : lineOf (⟨name, .object s.nextId⟩, (s.behind input).openObject.2) =
          line depth (Event.opened name).decoded := by
        simp [lineOf, around, Property.isObject, Property.event, h_inside]
      have h_rest := ih h h_inside (printed ++ line depth (Event.opened name).decoded)
      rw [Stream.remaining_of_some h_event, Stream.walked_of_some h_event, h_read]
      simpa [addLine_opened, Event.decoded, Event.map, h_line, String.append_assoc] using h_rest
    | closed input h_top =>
      cases depth with
      | zero => simp [Stream.atTop_of_length h_path] at h_top
      | succ depth =>
        have h_outside : (s.behind input).close.path.length = depth + 1 := by
          simp [Stream.close, h_path]
        rw [Stream.remaining_of_some h_event, Stream.walked_of_some h_event, h_read]
        exact ih h h_outside printed
    | finished input h_top | failed input e =>
      rw [Stream.remaining_of_none h_event, Stream.walked_of_none h_event]
      simp

theorem foldl_addLine_closed (count : Nat) (printed : String × Nat) :
    ((List.replicate count Event.closed).foldl addLine printed).1 = printed.1 := by
  induction count generalizing printed with
  | zero => rfl
  | succ count ih => exact ih _

/-- The listing of a document has a line for each property of the walk through it. -/
theorem listing_walk {s : Stream ι} (h : s.Running) (h_path : s.path = [rootId]) :
    listing (s.walk rootId).1 = String.join (s.walked.map lineOf) := by
  have h_walk := Stream.walkOnto_eq_remaining s [] h (by simp [h_path])
  have h_length : s.path.length = 0 + 1 := congrArg List.length h_path
  have h_lines := foldl_addLine_remaining s h h_length ""
  rw [h_path] at h_walk
  have h_closed : Event.decoded .closed = .closed := rfl
  rw [listing, Stream.walk, h_walk, List.reverse_nil, List.nil_append, List.map_append,
    List.foldl_append, List.map_replicate, h_closed, foldl_addLine_closed, h_lines,
    String.empty_append]

/-! ## What is left behind -/

/-- The command fails for a file where the walk through it comes to an error. -/
theorem outcome_file {look : String → Opened} {path : String} {text : Slice}
    (h : look path = .file text) :
    let walk := (Stream.ofSource text {}).walk rootId
    let outcome := (Request.print path).outcome look
    outcome.output = listing walk.1 ∧
      (walk.2.error = none → outcome.code = 0 ∧ outcome.complaint = "") ∧
      ∀ e, walk.2.error = some e → outcome.code = 1 ∧ outcome.complaint = e.display ++ "\n" := by
  intro walk outcome
  have h_outcome : outcome = print text := by
    change Request.outcome look (.print path) = _
    rw [Request.outcome, h]
  rw [h_outcome]
  unfold print
  dsimp only
  split
  · rename_i h_error
    exact ⟨rfl, fun _ => ⟨rfl, rfl⟩, fun e h_e => by cases h_error.symm.trans h_e⟩
  · rename_i e h_error
    refine ⟨rfl, fun h_none => (by cases h_error.symm.trans h_none), fun e' h_e => ?_⟩
    obtain rfl := Option.some.inj (h_error.symm.trans h_e)
    exact ⟨rfl, rfl⟩

/-- What is printed for a file are the properties that can be read, each with its name, its value
if it holds a text, and its place in the document: a line for every property of the walk, moved
in by the objects around it.  A printer that works by recursion prints the same and comes to the
same end, and the lines are those of the tree that a load puts together.  The command succeeds and
complains of nothing if and only if the document can be loaded; otherwise it fails and complains of
the error with which loading fails, by its line and its message. -/
theorem print_file {look : String → Opened} {path : String} {content : Bytes}
    (h : look path = .file { rest := content }) :
    let start := Stream.ofSource ({ rest := content } : Slice) {}
    let outcome := (Request.print path).outcome look
    let loaded := Fields.ofBytes content {}
    outcome.output = String.join (start.walked.map lineOf) ∧
    ((printObject start rootId 0).1 = (outcome.output, (start.readFields rootId).2) ∧
      outcome.output = String.join (Fields.lines 0 (start.readFields rootId).1)) ∧
    (outcome.code = 0 ∧ outcome.complaint = "" ↔ ∃ f, loaded = .ok f) ∧
    (∀ f, loaded = .ok f → outcome.output = String.join (Fields.lines 0 f)) ∧
    ∀ e, loaded = .error e →
      outcome.code = 1 ∧ ∃ line cause, e = .malformed line cause ∧
        outcome.complaint = Number.integerText line ++ ": " ++ cause.message ++ "\n" := by
  intro start outcome loaded
  obtain ⟨h_output, h_success, h_failure⟩ : outcome.output = listing (start.walk rootId).1 ∧ _ :=
    outcome_file h
  obtain ⟨t, h_events, h_fields, h_printed⟩ := exists_tree_printed start
  have h_lines : outcome.output = String.join (Fields.lines 0 (start.readFields rootId).1) := by
    rw [h_output, h_events, listing_events, h_fields]
  refine ⟨h_output.trans (listing_walk ⟨rfl, rfl⟩ rfl), ⟨?_, h_lines⟩, ?_⟩
  · rw [h_printed, h_lines, h_fields]
  cases h_error : (start.readFields rootId).2.error with
  | none =>
    have h_loaded : loaded = .ok (start.readFields rootId).1 :=
      congrArg Prod.fst (Stream.load_of_error_none h_error)
    refine ⟨⟨fun _ => ⟨_, h_loaded⟩, fun _ => h_success h_error⟩, fun f h_f => ?_, fun e h_e => ?_⟩
    · obtain rfl := Except.ok.inj (h_loaded.symm.trans h_f)
      exact h_lines
    · cases h_loaded.symm.trans h_e
  | some e =>
    have h_loaded : loaded = .error e := congrArg Prod.fst (Stream.load_of_error h_error)
    obtain ⟨h_code, h_complaint⟩ := h_failure e h_error
    refine ⟨⟨?_, ?_⟩, fun f h_f => ?_, fun e' h_e => ?_⟩
    · rintro ⟨h_zero, -⟩
      cases h_code.symm.trans h_zero
    · rintro ⟨f, h_f⟩
      cases h_loaded.symm.trans h_f
    · cases h_loaded.symm.trans h_f
    · obtain ⟨line, cause, -, rfl⟩ := Fields.exists_firstFault h_e
      obtain rfl := Except.error.inj (h_loaded.symm.trans h_e)
      exact ⟨h_code, line, cause, rfl, h_complaint⟩

/-- The file `notes` breaks off inside an object, behind a property whose value is no text.  The
line of the property is printed, and the end of the file is complained of. -/
theorem print_file_broken_off :
    let content : Bytes := [0x61, 0x7b, 0x62, 0x3a, 0x22, 0xff, 0x22, 0x0a]
    let look : String → Opened := fun path =>
      if path = "notes" then .file { rest := content } else .failed "No such file or directory"
    let outcome := (Request.print "notes").outcome look
    look "notes" = .file { rest := content } ∧
      outcome.output = "a:\n    b = \"\ufffd\"\n" ∧ outcome.code = 1 ∧
      outcome.complaint = "2: unexpected EOF\n" := by
  intro content look outcome
  have h_look : look "notes" = .file { rest := content } := if_pos rfl
  have h_error : ((Stream.ofSource ({ rest := content } : Slice) {}).readFields rootId).2.error =
      some (.malformed 2 .unexpectedEnd) := by decide +kernel
  obtain ⟨h_lines, -, -, -, h_failed⟩ := print_file h_look
  obtain ⟨h_code, line, cause, h_cause, h_complaint⟩ :=
    h_failed _ (congrArg Prod.fst (Stream.load_of_error h_error))
  obtain ⟨rfl, rfl⟩ := Error.malformed.inj h_cause
  refine ⟨h_look, h_lines.trans ?_, h_code, h_complaint.trans ?_⟩
  · decide +kernel
  · decide +kernel

end Cli
end PropertyText
