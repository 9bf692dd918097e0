import ResourceDelta.Proofs.Comparison.Wording

/-!
# Programs read back from their lines

The lines of a fragment are read from top to bottom, with the blocks that are open.  A line stands
in the block that is innermost when it is reached, and its tabs tell how many there are.

* `OpenProgram.next?` — what has been read after one thing more is said.
* `readProgram?` — the program that lines say, if they say one.
* `Statement.readLines?_lines` — the lines of a statement add it to the innermost block.
* `OpenProgram.lines_next?` — what is said next stands in a line behind those that have been read.
* `readProgram?_eq_some_iff` — the lines of a program are read as that program, and no others are.
-/

set_option autoImplicit false

namespace ResourceDelta

/-! ## Blocks around a line -/

/-- A block that is open: the statements before the one that it belongs to, and what is known of
that one. -/
inductive Frame where
  /-- The block for unequal values. -/
  | unequal (before : List Statement) (check : Check) (path : FieldPath)
  /-- The block for one value that is nil and one that is not. -/
  | mismatch (before : List Statement) (path : FieldPath)
  /-- The block for two values that are not nil, behind that for one that is. -/
  | present (before : List Statement) (path : FieldPath) (mismatch : List Statement)

/-- A program that has been read in part: the blocks that are open, innermost first, and the
statements in the innermost. -/
structure OpenProgram where
  outer : List Frame
  block : List Statement

/-- Whether a line starts with the end of a block. -/
def Code.leavesBlock : Code → Bool
  | .said .present _ => true
  | .closing => true
  | _ => false

namespace OpenProgram

/-- What has been read after one thing more is said, if it can be said here. -/
def next? (r : OpenProgram) (code : Code) : Option OpenProgram :=
  match code, r.outer with
  | .said .record path, outer => some ⟨outer, r.block ++ [.record path]⟩
  | .said (.unequal check) path, outer => some ⟨.unequal r.block check path :: outer, []⟩
  | .said .oneNil path, outer => some ⟨.mismatch r.block path :: outer, []⟩
  | .said .present path, .mismatch before opened :: outer =>
    if path = opened then some ⟨.present before path r.block :: outer, []⟩ else none
  | .closing, .unequal before check path :: outer =>
    some ⟨outer, before ++ [.ifUnequal check path r.block]⟩
  | .closing, .present before path mismatch :: outer =>
    some ⟨outer, before ++ [.ifOneNil path mismatch r.block]⟩
  | _, _ => none

/-- How far in the next line stands: once for each block that it is in. -/
def levelOf (r : OpenProgram) (code : Code) : Nat :=
  if code.leavesBlock then r.outer.length - 1 else r.outer.length

/-- What has been read after one line more, if it is indented as it should be. -/
def readLine? (names : Names) (indent : Nat) (r : OpenProgram) (line : String) :
    Option OpenProgram := do
  let (level, code) ← Code.readLine? names line
  if level = indent + r.levelOf code then r.next? code else none

/-- What has been read after some lines more. -/
def readLines? (names : Names) (indent : Nat) (r : OpenProgram) (lines : List String) :
    Option OpenProgram :=
  lines.foldlM (readLine? names indent) r

end OpenProgram

/-- The program that lines say, if they say one. -/
def readProgram? (names : Names) (indent : Nat) (lines : List String) :
    Option (List Statement) := do
  let r ← OpenProgram.readLines? names indent ⟨[], []⟩ lines
  if r.outer.isEmpty then some r.block else none

/-! ## The lines of a program -/

section

variable {names : Names} {indent : Nat}

namespace OpenProgram

variable {level : Nat} {r : OpenProgram}

theorem readLine?_text {c : Code} (h : level = indent + r.levelOf c) :
    r.readLine? names indent (Line.text names ⟨level, c.template⟩) = r.next? c := by
  unfold readLine?
  rw [Code.readLine?_text]
  exact if_pos h

theorem readLines?_text {c : Code} {after : OpenProgram} (lines : List String)
    (h : level = indent + r.levelOf c) (hnext : r.next? c = some after) :
    r.readLines? names indent (Line.text names ⟨level, c.template⟩ :: lines) =
      after.readLines? names indent lines := by
  show (r.readLine? names indent _).bind _ = _
  rw [readLine?_text h, hnext]
  rfl

theorem readLines?_append {after : OpenProgram} {lines : List String} (lines' : List String)
    (h : r.readLines? names indent lines = some after) :
    r.readLines? names indent (lines ++ lines') = after.readLines? names indent lines' := by
  unfold readLines? at h ⊢
  rw [List.foldlM_append, h]
  rfl

end OpenProgram

open OpenProgram

mutual

/-- The lines of a statement add it to the innermost block. -/
theorem Statement.readLines?_lines : ∀ {r : OpenProgram} {level : Nat} (s : Statement),
    level = indent + r.outer.length →
      r.readLines? names indent ((s.lines level).map (Line.text names)) =
        some ⟨r.outer, r.block ++ [s]⟩
  | r, level, .record path, h => readLines?_text (c := .said .record path) [] h rfl
  | r, level, .ifUnequal check path body, h => by
    let inner : OpenProgram := ⟨.unequal r.block check path :: r.outer, []⟩
    have hinner : level + 1 = indent + inner.outer.length := congrArg (· + 1) h
    have hbody := readLines?_program body hinner
    rw [Statement.lines, List.cons_append, List.map_cons, List.map_append]
    refine (readLines?_text (c := .said (.unequal check) path) _ h rfl).trans ?_
    refine (readLines?_append _ hbody).trans ?_
    exact readLines?_text (c := .closing) [] h rfl
  | r, level, .ifOneNil path mismatch present, h => by
    let inner : OpenProgram := ⟨.mismatch r.block path :: r.outer, []⟩
    let inner' : OpenProgram := ⟨.present r.block path mismatch :: r.outer, []⟩
    have hinner : level + 1 = indent + inner.outer.length := congrArg (· + 1) h
    have hmismatch := readLines?_program mismatch hinner
    have hturn : next? ⟨inner.outer, mismatch⟩ (.said .present path) = some inner' := if_pos rfl
    have hpresent := readLines?_program (r := inner') present hinner
    simp only [Statement.lines, List.cons_append, List.append_assoc, List.map_cons,
      List.map_append]
    refine (readLines?_text (c := .said .oneNil path) _ h rfl).trans ?_
    refine (readLines?_append _ hmismatch).trans ?_
    refine (readLines?_text (c := .said .present path) _ h hturn).trans ?_
    refine (readLines?_append _ hpresent).trans ?_
    exact readLines?_text (c := .closing) [] h rfl

/-- The lines of a program add it to the innermost block. -/
theorem readLines?_program : ∀ {r : OpenProgram} {level : Nat} (program : List Statement),
    level = indent + r.outer.length →
      r.readLines? names indent ((programLines level program).map (Line.text names)) =
        some ⟨r.outer, r.block ++ program⟩
  | r, level, [], _ => by
    rw [List.append_nil]
    rfl
  | r, level, s :: program, h => by
    have hs := Statement.readLines?_lines s h
    have hprogram := readLines?_program (r := ⟨r.outer, r.block ++ [s]⟩) program h
    rw [programLines, List.map_append, readLines?_append _ hs, hprogram, List.append_assoc]
    rfl

end

theorem readProgram?_lines (names : Names) (indent : Nat) (program : List Statement) :
    readProgram? names indent ((programLines indent program).map (Line.text names)) =
      some program := by
  have hread : OpenProgram.readLines? names indent ⟨[], []⟩ _ = _ :=
    readLines?_program program (Nat.add_zero indent).symm
  unfold readProgram?
  rw [hread]
  rfl

/-! ## The lines that have been read -/

/-- The lines around the innermost block, as far as they have been read. -/
def outerLines (indent : Nat) : List Frame → List Line
  | [] => []
  | .unequal before check path :: outer =>
    let level := indent + outer.length
    outerLines indent outer ++ programLines level before ++ [⟨level, unequalLine check path⟩]
  | .mismatch before path :: outer =>
    let level := indent + outer.length
    outerLines indent outer ++ programLines level before ++ [⟨level, oneNilLine path⟩]
  | .present before path mismatch :: outer =>
    let level := indent + outer.length
    outerLines indent outer ++ programLines level before ++
      ⟨level, oneNilLine path⟩ :: programLines (level + 1) mismatch ++ [⟨level, presentLine path⟩]

namespace OpenProgram

/-- The lines that have been read. -/
def lines (indent : Nat) (r : OpenProgram) : List Line :=
  outerLines indent r.outer ++ programLines (indent + r.outer.length) r.block

variable {r after : OpenProgram} {c : Code}

theorem lines_statement (before : List Statement) (outer : List Frame) (s : Statement) :
    lines indent ⟨outer, before ++ [s]⟩ =
      lines indent ⟨outer, before⟩ ++ s.lines (indent + outer.length) := by
  simp [lines, programLines_append, programLines]

/-- What is said next stands in a line behind those that have been read. -/
theorem lines_next? (h : r.next? c = some after) :
    after.lines indent = r.lines indent ++ [⟨indent + r.levelOf c, c.template⟩] := by
  obtain ⟨outer, block⟩ := r
  cases c with
  | said phrase path =>
    cases phrase with
    | record =>
      cases h
      exact lines_statement block outer (.record path)
    | unequal check =>
      cases h
      exact List.append_nil _
    | oneNil =>
      cases h
      exact List.append_nil _
    | present =>
      cases outer with
      | nil => cases h
      | cons frame outer =>
        cases frame with
        | mismatch before opened =>
          by_cases heq : path = opened
          · obtain rfl : _ = after := Option.some.inj ((if_pos heq).symm.trans h)
            simp [lines, outerLines, levelOf, Code.leavesBlock, Code.template, programLines, heq,
              Nat.add_assoc]
          · cases (if_neg heq).symm.trans h
        | unequal before check opened => cases h
        | present before opened mismatch => cases h
  | closing =>
    cases outer with
    | nil => cases h
    | cons frame outer =>
      cases frame with
      | unequal before check opened =>
        cases h
        rw [lines_statement]
        simp [lines, outerLines, levelOf, Code.leavesBlock, Code.template, Statement.lines,
          Nat.add_assoc]
      | mismatch before opened => cases h
      | present before opened mismatch =>
        cases h
        rw [lines_statement]
        simp [lines, outerLines, levelOf, Code.leavesBlock, Code.template, Statement.lines,
          Nat.add_assoc]

/-- A line that is read says what comes next, and is indented as it should be. -/
theorem exists_code_of_readLine? {line : String} (h : r.readLine? names indent line = some after) :
    ∃ c, r.next? c = some after ∧
      line = Line.text names ⟨indent + r.levelOf c, c.template⟩ := by
  unfold readLine? at h
  obtain ⟨⟨level, c⟩, hread, h⟩ := Option.bind_eq_some_iff.1 h
  by_cases hlevel : level = indent + r.levelOf c
  · refine ⟨c, (if_pos hlevel).symm.trans h, ?_⟩
    rw [Line.text, Code.fill_template, ← hlevel]
    exact (Code.readLine?_eq_some_iff.1 hread).symm
  · cases (if_neg hlevel).symm.trans h

/-- What has been read after some lines is what had been read before them, and these. -/
theorem lines_of_readLines? {lines : List String}
    (h : r.readLines? names indent lines = some after) :
    (after.lines indent).map (Line.text names) =
      (r.lines indent).map (Line.text names) ++ lines := by
  induction lines generalizing r with
  | nil =>
    cases h
    rw [List.append_nil]
  | cons line lines ih =>
    obtain ⟨next, hnext, hrest⟩ := Option.bind_eq_some_iff.1 h
    obtain ⟨c, hsaid, rfl⟩ := exists_code_of_readLine? hnext
    rw [ih hrest, lines_next? hsaid, List.map_append, List.append_assoc]
    rfl

end OpenProgram

/-- **The lines of a program are read as that program**, and no other lines are. -/
theorem readProgram?_eq_some_iff {lines : List String} {program : List Statement} :
    readProgram? names indent lines = some program ↔
      (programLines indent program).map (Line.text names) = lines := by
  constructor
  · intro h
    obtain ⟨⟨outer, block⟩, hread, h⟩ := Option.bind_eq_some_iff.1 h
    cases outer with
    | nil =>
      obtain rfl : block = program := Option.some.inj h
      exact lines_of_readLines? hread
    | cons frame outer => cases h
  · rintro rfl
    exact readProgram?_lines names indent program

end

end ResourceDelta
