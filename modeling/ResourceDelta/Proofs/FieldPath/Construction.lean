import ResourceDelta.Proofs.FieldPath.Segmentwise

/-!
# Building paths and reading them

A path can be read from its written form, or built name by name and shortened again.  Both ways
agree, with the errors that they report.

* `PathOps`, `Command` — the ways to get from one path to the next, for any representation of paths.
* `Command.answer_map`, `PathOps.run_map` — representations with matching functions give matching
  answers: one command, then all commands of a run.
* `FieldPath.child_eq_parse`, `FieldPath.elementChild_eq_parse` — to extend a path is to read the
  extended text.
* `buildPath_eq_ok_iff` — the names of a path are the only ones that it is built from.
* `building_agrees_with_reading` — all of this together.
-/

set_option autoImplicit false

namespace ResourceDelta

/-! ## Runs of commands -/

/-- What can be done with paths that are represented in some way. -/
structure PathOps (π : Type) where
  start : String → Except PathError π
  read : String → Except PathError π
  extend : π → Extension → Except PathError π
  shorten : π → Option π

/-- What can be asked for while there may be a current path. -/
inductive Command where
  /-- The path of a top-level field. -/
  | new (name : String)
  /-- The path with a written form. -/
  | parse (text : String)
  /-- The path of a member of the current one. -/
  | extend (e : Extension)
  /-- The parent of the current path. -/
  | parent
  deriving DecidableEq, Repr

section

variable {π ρ : Type} {ops : PathOps π} {ops' : PathOps ρ}

/-- The path that a command leads to; there is none if there is no current path to go on from, or
this has no parent. -/
def Command.answer (ops : PathOps π) (current : Option π) : Command → Except PathError (Option π)
  | .new name => (ops.start name).map some
  | .parse text => (ops.read text).map some
  | .extend e =>
    match current with
    | none => .ok none
    | some p => (ops.extend p e).map some
  | .parent => .ok (current.bind ops.shorten)

/-- The current path after a command, which leaves it as it is if it leads to no path. -/
def Command.after (ops : PathOps π) (current : Option π) (c : Command) : Option π :=
  match c.answer ops current with
  | .ok (some p) => some p
  | _ => current

/-- The current path after some commands; there is none at first. -/
def PathOps.run (ops : PathOps π) (cs : List Command) : Option π :=
  cs.foldl (Command.after ops) none

/-- What is done with the one representation is done with the other. -/
structure PathOps.Matches (f : π → ρ) (ops : PathOps π) (ops' : PathOps ρ) : Prop where
  start : ∀ name, ops'.start name = (ops.start name).map f
  read : ∀ text, ops'.read text = (ops.read text).map f
  extend : ∀ p e, ops'.extend (f p) e = (ops.extend p e).map f
  shorten : ∀ p, ops'.shorten (f p) = (ops.shorten p).map f

theorem Command.answer_map {f : π → ρ} (h : ops.Matches f ops') (current : Option π)
    (c : Command) :
    c.answer ops' (current.map f) = (c.answer ops current).map (Option.map f) := by
  have hmap : ∀ x : Except PathError π, (x.map f).map some = (x.map some).map (Option.map f) := by
    intro x
    cases x <;> rfl
  cases c with
  | new name => rw [answer, answer, h.start, hmap]
  | parse text => rw [answer, answer, h.read, hmap]
  | extend e =>
    cases current with
    | none => rfl
    | some p =>
      show (ops'.extend (f p) e).map some = ((ops.extend p e).map some).map (Option.map f)
      rw [h.extend, hmap]
  | parent =>
    cases current with
    | none => rfl
    | some p => exact congrArg Except.ok (h.shorten p)

theorem Command.after_map {f : π → ρ} (h : ops.Matches f ops') (current : Option π)
    (c : Command) : c.after ops' (current.map f) = (c.after ops current).map f := by
  unfold after
  rw [c.answer_map h]
  rcases c.answer ops current with e | _ | p <;> rfl

theorem PathOps.run_map {f : π → ρ} (h : ops.Matches f ops') (cs : List Command) :
    ops'.run cs = (ops.run cs).map f := by
  have hfold : ∀ current : Option π,
      cs.foldl (Command.after ops') (current.map f) =
        (cs.foldl (Command.after ops) current).map f := by
    induction cs with
    | nil => exact fun _ => rfl
    | cons c cs ih =>
      intro current
      rw [List.foldl_cons, List.foldl_cons, c.after_map h, ih]
  exact hfold none

end

/-- Paths as a top-level name and steps. -/
def pathOps : PathOps FieldPath :=
  ⟨FieldPath.ofName, FieldPath.parse, FieldPath.extendBy, FieldPath.parent⟩

/-- Paths as rows of segments. -/
def rowOps : PathOps (List Segment) :=
  ⟨beginRow, readRow, extendRow, shortenRow⟩

theorem pathOps_matches : pathOps.Matches FieldPath.segments rowOps where
  start := FieldPath.beginRow_eq
  read := FieldPath.readRow_eq
  extend := FieldPath.extendRow_segments
  shorten := FieldPath.shortenRow_segments

/-! ## Extending a path and extending its text -/

theorem isFieldName_eq_false {name : String} (h : name = "" ∨ '.' ∈ name.toList) :
    isFieldName name = false := by
  rw [← Bool.not_eq_true]
  intro hname
  rcases h with rfl | hdot
  · exact FieldName.text_ne_empty ⟨"", hname⟩ rfl
  · exact FieldName.dot_not_mem ⟨name, hname⟩ hdot

/-- After the parts of some steps, what is left is read as further steps. -/
theorem readSteps_append : ∀ (steps : List Step) (index : Nat) (rest : List String),
    readSteps index ((steps.flatMap Step.segments).map Segment.text ++ rest) =
      (readSteps (index + (steps.flatMap Step.segments).length) rest).map (steps ++ ·)
  | [], index, rest => by
    show readSteps index rest = (readSteps index rest).map _
    cases readSteps index rest <;> rfl
  | .member n :: steps, index, rest => by
    have ih := readSteps_append steps (index + 1) rest
    rw [show index + ((Step.member n :: steps).flatMap Step.segments).length =
      index + 1 + (steps.flatMap Step.segments).length by simp [Step.segments]; omega]
    show readSteps index (n.text :: ((steps.flatMap Step.segments).map Segment.text ++ rest)) = _
    rw [readSteps_name n.text_ne_empty, n.read_text, ih]
    cases readSteps (index + 1 + (steps.flatMap Step.segments).length) rest <;> rfl
  | .elementMember n :: steps, index, rest => by
    have ih := readSteps_append steps (index + 2) rest
    rw [show index + ((Step.elementMember n :: steps).flatMap Step.segments).length =
      index + 2 + (steps.flatMap Step.segments).length by simp [Step.segments]; omega]
    show readSteps index
      ("" :: n.text :: ((steps.flatMap Step.segments).map Segment.text ++ rest)) = _
    rw [readSteps_wildcard, if_neg n.text_ne_empty, n.read_text, ih]
    cases readSteps (index + 2 + (steps.flatMap Step.segments).length) rest <;> rfl

namespace FieldPath

/-- A text that starts with the parts of a path is read as this path and further steps. -/
theorem parse_of_dotParts {s : String} {p : FieldPath} {rest : List String}
    (h : dotParts s = p.segments.map Segment.text ++ rest) :
    FieldPath.parse s =
      (readSteps p.segments.length rest).map fun steps => ⟨p.root, p.steps ++ steps⟩ := by
  have hparts : dotParts s =
      p.root.text :: ((p.steps.flatMap Step.segments).map Segment.text ++ rest) := h
  have hs : s ≠ "" := by
    rintro rfl
    exact p.root.text_ne_empty (List.cons.inj hparts).1.symm
  have hlength : p.segments.length = 1 + (p.steps.flatMap Step.segments).length := by
    rw [segments, List.length_cons, Nat.add_comm]
  rw [parse_parts hs hparts, if_neg p.root.text_ne_empty, p.root.read_text, readSteps_append,
    hlength]
  cases readSteps (1 + (p.steps.flatMap Step.segments).length) rest <;> rfl

section

variable {p : FieldPath} {name : String}

theorem child_eq_parse (hname : name ≠ "") (hdot : '.' ∉ name.toList) :
    p.child name = FieldPath.parse (p.text ++ "." ++ name) := by
  have hparts : dotParts (p.text ++ "." ++ name) = p.segments.map Segment.text ++ [name] := by
    rw [dotParts_append, dotParts_text, dotParts_eq_singleton hdot]
  rw [parse_of_dotParts hparts, readSteps_name hname, FieldName.read_bind, child_eq]
  split <;> rfl

theorem elementChild_eq_parse (hname : name ≠ "") (hdot : '.' ∉ name.toList) :
    p.elementChild name = FieldPath.parse (p.text ++ ".." ++ name) := by
  have hdots : p.text ++ ".." ++ name = p.text ++ "." ++ "" ++ "." ++ name := by
    simp only [String.append_empty, String.append_assoc]
    rw [← @String.append_assoc ".", show "." ++ "." = ".." from rfl]
  have hparts : dotParts (p.text ++ ".." ++ name) = p.segments.map Segment.text ++ ["", name] := by
    rw [hdots, dotParts_append, dotParts_append, dotParts_text, dotParts_eq_singleton hdot,
      dotParts_eq_singleton (s := "") (by simp), List.append_assoc]
    rfl
  rw [parse_of_dotParts hparts, readSteps_wildcard, if_neg hname, FieldName.read_bind,
    elementChild_eq]
  split <;> rfl

theorem ofName_eq_parse (hdot : '.' ∉ name.toList) :
    FieldPath.ofName name = FieldPath.parse name := by
  unfold ofName
  by_cases hname : name = ""
  · rw [if_pos hname, hname]
    rfl
  · rw [if_neg hname, parse_parts hname (dotParts_eq_singleton hdot), if_neg hname,
      FieldName.read_bind, FieldName.read_bind]
    rfl

theorem child_of_not_name (h : name = "" ∨ '.' ∈ name.toList) :
    p.child name = .error (.invalidName name p.segments.length) ∧
      p.elementChild name = .error (.invalidName name (p.segments.length + 1)) := by
  have hname : ¬ isFieldName name = true := by
    rw [isFieldName_eq_false h]
    exact Bool.false_ne_true
  rw [child_eq, elementChild_eq, dif_neg hname, dif_neg hname]
  exact ⟨rfl, rfl⟩

/-- Two written paths with a dot between them are a written path again. -/
theorem parse_text_append (p q : FieldPath) :
    FieldPath.parse (p.text ++ "." ++ q.text) =
      .ok ⟨p.root, p.steps ++ .member q.root :: q.steps⟩ := by
  rw [parse_eq_ok_iff, dotParts_append, dotParts_text, dotParts_text, ← List.map_append]
  simp [segments, Step.segments]

/-- The text of a path that is not a top-level field's has dots. -/
theorem dot_mem_text (hne : p.parent ≠ none) : '.' ∈ p.text.toList := by
  by_contra hdot
  have hparts := dotParts_eq_singleton hdot
  rw [dotParts_text, segments, List.map_cons] at hparts
  obtain ⟨root, _ | ⟨s, ss⟩⟩ := p
  · exact hne rfl
  · cases s <;> simp [Step.segments] at hparts

theorem parent_of_child (h : IsIdentifier name) :
    ∃ c e, p.child name = .ok c ∧ p.elementChild name = .ok e ∧
      c.parent = some p ∧ e.parent = some p := by
  have hname := isFieldName_iff.2 h
  rw [child_eq, elementChild_eq, dif_pos hname, dif_pos hname]
  exact ⟨_, _, rfl, rfl, p.parent_extend _, p.parent_extend _⟩

end

end FieldPath

/-! ## The one way to build a path -/

/-- The path that is built from a top-level name and extensions, if all of them are valid. -/
def buildPath (name : String) (es : List Extension) : Except PathError FieldPath := do
  let p ← FieldPath.ofName name
  es.foldlM FieldPath.extendBy p

/-- The extension by which a step is made. -/
def Step.extension : Step → Extension
  | .member name => .child name.text
  | .elementMember name => .elementChild name.text

theorem Extension.extension_step (e : Extension) (h : isFieldName e.name = true) :
    (e.step ⟨e.name, h⟩).extension = e := by
  cases e <;> rfl

theorem FieldPath.extendBy_eq_ok_iff {p q : FieldPath} {e : Extension} :
    p.extendBy e = .ok q ↔ ∃ s : Step, e = s.extension ∧ q = p.extend s := by
  rw [extendBy_eq]
  constructor
  · intro h
    split at h
    · rename_i hname
      cases h
      exact ⟨_, (e.extension_step hname).symm, rfl⟩
    · cases h
  · rintro ⟨s, rfl, rfl⟩
    cases s with
    | member n => exact dif_pos n.isName
    | elementMember n => exact dif_pos n.isName

/-- Extensions lead from one path to the other exactly if they are those of the steps between. -/
theorem foldlM_extendBy_eq_ok_iff {p q : FieldPath} {es : List Extension} :
    es.foldlM FieldPath.extendBy p = .ok q ↔
      ∃ steps : List Step, es = steps.map Step.extension ∧ q = ⟨p.root, p.steps ++ steps⟩ := by
  induction es generalizing p with
  | nil =>
    constructor
    · intro h
      cases h
      exact ⟨[], rfl, by rw [List.append_nil]⟩
    · rintro ⟨steps, hes, rfl⟩
      rw [List.map_eq_nil_iff.1 hes.symm, List.append_nil]
      rfl
  | cons e es ih =>
    rw [List.foldlM_cons, bind_eq_ok]
    constructor
    · rintro ⟨p', hp', h⟩
      obtain ⟨s, rfl, rfl⟩ := FieldPath.extendBy_eq_ok_iff.1 hp'
      obtain ⟨steps, rfl, rfl⟩ := ih.1 h
      exact ⟨s :: steps, rfl, by simp [FieldPath.extend]⟩
    · rintro ⟨steps, hes, rfl⟩
      obtain ⟨s, steps, rfl, rfl, rfl⟩ := List.map_eq_cons_iff.1 hes.symm
      exact ⟨p.extend s, FieldPath.extendBy_eq_ok_iff.2 ⟨s, rfl, rfl⟩,
        ih.2 ⟨steps, rfl, by simp [FieldPath.extend]⟩⟩

theorem FieldPath.ofName_eq_ok_iff {name : String} {p : FieldPath} :
    FieldPath.ofName name = .ok p ↔ p.root.text = name ∧ p.steps = [] := by
  unfold ofName
  by_cases hname : name = ""
  · rw [if_pos hname]
    simp only [reduceCtorEq, false_iff]
    rintro ⟨hroot, -⟩
    exact p.root.text_ne_empty (hroot.trans hname)
  · rw [if_neg hname, bind_eq_ok]
    constructor
    · rintro ⟨root, hroot, h⟩
      cases h
      exact ⟨FieldName.read_eq_ok_iff.1 hroot, rfl⟩
    · rintro ⟨hroot, hsteps⟩
      refine ⟨p.root, FieldName.read_eq_ok_iff.2 hroot, ?_⟩
      rw [← hsteps]
      rfl

/-- **A path is built from its own names and from no others.** -/
theorem buildPath_eq_ok_iff {name : String} {es : List Extension} {p : FieldPath} :
    buildPath name es = .ok p ↔ name = p.root.text ∧ es = p.steps.map Step.extension := by
  unfold buildPath
  rw [bind_eq_ok]
  constructor
  · rintro ⟨r, hr, h⟩
    obtain ⟨hroot, hsteps⟩ := FieldPath.ofName_eq_ok_iff.1 hr
    obtain ⟨steps, rfl, rfl⟩ := foldlM_extendBy_eq_ok_iff.1 h
    rw [hsteps, List.nil_append]
    exact ⟨hroot.symm, rfl⟩
  · rintro ⟨rfl, rfl⟩
    exact ⟨⟨p.root, []⟩, FieldPath.ofName_eq_ok_iff.2 ⟨rfl, rfl⟩,
      foldlM_extendBy_eq_ok_iff.2 ⟨p.steps, rfl, rfl⟩⟩

/-! ## The main result -/

/-- What is known of a run of commands. -/
structure IsSoundRun (cs : List Command) : Prop where
  /-- The current row has a name at both ends, valid names, and no two wildcards in a row; what is
  written of it is read as this row. -/
  row : ∀ ss, rowOps.run cs = some ss → IsCanonical ss ∧ readRow (writeRow ss) = .ok ss
  /-- So it is with the current path. -/
  path : ∀ p, pathOps.run cs = some p → IsCanonical p.segments ∧ FieldPath.parse p.text = .ok p
  /-- The current row is that of the current path. -/
  current : rowOps.run cs = (pathOps.run cs).map FieldPath.segments
  /-- Every further command has the same answer for both, be it a path or an error. -/
  answer : ∀ c : Command, c.answer rowOps (rowOps.run cs) =
    (c.answer pathOps (pathOps.run cs)).map (Option.map FieldPath.segments)

theorem isSoundRun (cs : List Command) : IsSoundRun cs := by
  have hrun := PathOps.run_map pathOps_matches cs
  refine ⟨fun ss h => ?_, fun p _ => ⟨p.segments_canonical, p.parse_text⟩, hrun, fun c => ?_⟩
  · rw [hrun] at h
    obtain ⟨p, -, rfl⟩ := Option.map_eq_some_iff.1 h
    refine ⟨p.segments_canonical, ?_⟩
    rw [p.writeRow_segments, FieldPath.readRow_eq, p.parse_text]
    rfl
  · rw [hrun]
    exact c.answer_map pathOps_matches _

/-- What is known of extending a path by a name. -/
structure ExtendsAsRead (p : FieldPath) (name : String) : Prop where
  /-- To extend the path by a text without dots is to read the extended text. -/
  plain : name ≠ "" → '.' ∉ name.toList →
    p.child name = FieldPath.parse (p.text ++ "." ++ name) ∧
    p.elementChild name = FieldPath.parse (p.text ++ ".." ++ name)
  /-- Without a text or with dots in it there is no extended path. -/
  dotted : name = "" ∨ '.' ∈ name.toList →
    p.child name = .error (.invalidName name p.segments.length) ∧
    p.elementChild name = .error (.invalidName name (p.segments.length + 1))
  /-- The parent of an extended path is the path itself. -/
  parent : IsIdentifier name → ∃ c e, p.child name = .ok c ∧ p.elementChild name = .ok e ∧
    c.parent = some p ∧ e.parent = some p

/-- **Building paths agrees with reading them**: whatever is built, read, extended and shortened is
a canonical row of segments that is read back, to extend a path is to read the extended text, and
every path is built in one way only.  A text with dots is never a name, even where the text with it
could be read. -/
theorem building_agrees_with_reading :
    (∀ cs, IsSoundRun cs) ∧
    (∀ p name, ExtendsAsRead p name) ∧
    (∀ name : String, '.' ∉ name.toList → FieldPath.ofName name = FieldPath.parse name) ∧
    (∀ p q : FieldPath, q.parent ≠ none →
      p.child q.text = .error (.invalidName q.text p.segments.length) ∧
      ∃ r, FieldPath.parse (p.text ++ "." ++ q.text) = .ok r) ∧
    ∀ p, ∃! b : String × List Extension, buildPath b.1 b.2 = .ok p := by
  refine ⟨isSoundRun, fun p name => ⟨fun hname hdot => ?_, FieldPath.child_of_not_name,
    FieldPath.parent_of_child⟩, fun name => FieldPath.ofName_eq_parse, fun p q hq => ?_,
    fun p => ?_⟩
  · exact ⟨FieldPath.child_eq_parse hname hdot, FieldPath.elementChild_eq_parse hname hdot⟩
  · exact ⟨(FieldPath.child_of_not_name (.inr (FieldPath.dot_mem_text hq))).1, _,
      p.parse_text_append q⟩
  · refine ⟨(p.root.text, p.steps.map Step.extension), buildPath_eq_ok_iff.2 ⟨rfl, rfl⟩, ?_⟩
    rintro ⟨name, es⟩ h
    obtain ⟨rfl, rfl⟩ := buildPath_eq_ok_iff.1 h
    rfl

/-- A run in which a name and a text are refused and a member of elements is left again. -/
def userCommands : List Command :=
  [.new "Users", .extend (.elementChild "not valid"), .extend (.elementChild "Groups"),
    .extend (.child "Name"), .parent, .parent, .parse "Users..", .extend (.elementChild "Password")]

/-- The path that the run ends at. -/
def userPassword : FieldPath :=
  ⟨⟨"Users", by decide⟩, [.elementMember ⟨"Password", by decide⟩]⟩

theorem building_agrees_with_reading_users :
    (pathOps.run userCommands = some userPassword ∧
      rowOps.run userCommands = some [.field "Users", .element, .field "Password"] ∧
      FieldPath.parse "Users..Password" = .ok userPassword) ∧
    ('.' ∉ "Key-Id".toList ∧
      FieldPath.parse "Users..Password..Key-Id" = .error (.invalidName "Key-Id" 4) ∧
      FieldPath.parse "Key-Id" = .error (.invalidName "Key-Id" 0)) ∧
    ('.' ∈ "Key.Id".toList ∧ userPassword.child "Key.Id" = .error (.invalidName "Key.Id" 3)) ∧
    (userPassword.parent ≠ none ∧
      userPassword.child "Users..Password" = .error (.invalidName "Users..Password" 3) ∧
      ∃ r, FieldPath.parse "Users..Password.Users..Password" = .ok r) ∧
    (IsIdentifier "Id" ∧ ∃ e, userPassword.elementChild "Id" = .ok e ∧
      e.parent = some userPassword) := by
  obtain ⟨hruns, hextends, hname, htext, -⟩ := building_agrees_with_reading
  have hrun : pathOps.run userCommands = some userPassword := by decide
  have hplain : '.' ∉ "Key-Id".toList := by decide
  have hdotted : '.' ∈ "Key.Id".toList := by decide
  have hbelow : userPassword.parent ≠ none := by decide
  have hvalid : IsIdentifier "Id" := isFieldName_iff.1 (by decide)
  refine ⟨⟨hrun, ?_, ((hruns userCommands).path userPassword hrun).2⟩, ⟨hplain, ?_, ?_⟩,
    ⟨hdotted, ((hextends userPassword "Key.Id").dotted (.inr hdotted)).1⟩,
    ⟨hbelow, htext userPassword userPassword hbelow⟩, hvalid, ?_⟩
  · rw [(hruns userCommands).current, hrun]
    rfl
  · have hread := ((hextends userPassword "Key-Id").plain (by decide) hplain).2
    exact hread.symm.trans (by decide)
  · exact (hname "Key-Id" hplain).symm.trans (by decide)
  · obtain ⟨-, e, -, he, -, hparent⟩ := (hextends userPassword "Id").parent hvalid
    exact ⟨e, he, hparent⟩

end ResourceDelta
