import ResourceDelta.Proofs.Comparison.Walk

/-!
# Lines and blocks of a fragment

A fragment is an empty line and then lines of code.  Braces at the ends and at the starts of these
lines open and close blocks, and a line is indented by one tab for each block that is open.

* `readLines` — reads lines from the top, with the blocks that are open; it fails at a line that is
  not indented as it should be, or closes no block or an empty one.
* `Statement.readLines_lines` — the lines of a statement close the blocks that they open, and leave
  one statement in the block around them.
* `programLines_add` — at a higher level, the lines of a program are the same with more tabs.
* `compareResource_indented` — the lines of a fragment, and those of the same fragment further in.
-/

set_option autoImplicit false

namespace ResourceDelta

/-! ## Lines of a text -/

/-- Lines as one text, each with a line break after it. -/
def joinLines (lines : List String) : String :=
  String.join (lines.map (· ++ "\n"))

/-- A row of tabs. -/
def tabs (n : Nat) : String :=
  String.ofList (List.replicate n '\t')

theorem toList_tabs (n : Nat) : (tabs n).toList = List.replicate n '\t' :=
  String.toList_ofList

theorem tabs_add (m n : Nat) : tabs (m + n) = tabs m ++ tabs n := by
  apply String.toList_injective
  rw [String.toList_append, toList_tabs, toList_tabs, toList_tabs, List.replicate_append_replicate]

/-- How many tabs a line starts with. -/
def leadingTabs (line : String) : Nat :=
  (line.toList.takeWhile (· = '\t')).length

/-- A line that ends in an opening brace opens a block. -/
def opensBlock (line : String) : Bool :=
  line.toList.getLast? = some '\x7b'

/-- A line with a closing brace after its tabs closes a block. -/
def closesBlock (line : String) : Bool :=
  (line.toList.dropWhile (· = '\t')).head? = some '\x7d'

section

variable {code : String} {c : Char}

theorem takeWhile_tabs (n : Nat) (hc : code.toList.head? = some c) (h : c ≠ '\t') :
    (tabs n ++ code).toList.takeWhile (· = '\t') = List.replicate n '\t' ∧
      (tabs n ++ code).toList.dropWhile (· = '\t') = code.toList := by
  have htabs : ∀ x ∈ List.replicate n '\t', decide (x = '\t') = true := by
    intro x hx
    rw [List.eq_of_mem_replicate hx]
    rfl
  obtain ⟨cs, hcs⟩ : ∃ cs, code.toList = c :: cs := by
    cases hlist : code.toList with
    | nil =>
      rw [hlist] at hc
      cases hc
    | cons d ds =>
      rw [hlist] at hc
      cases hc
      exact ⟨ds, rfl⟩
  rw [String.toList_append, toList_tabs, List.takeWhile_append_of_pos htabs,
    List.dropWhile_append_of_pos htabs, hcs]
  simp [h]

theorem leadingTabs_tabs (n : Nat) (hc : code.toList.head? = some c) (h : c ≠ '\t') :
    leadingTabs (tabs n ++ code) = n := by
  unfold leadingTabs
  rw [(takeWhile_tabs n hc h).1, List.length_replicate]

theorem closesBlock_tabs (n : Nat) (hc : code.toList.head? = some c) (h : c ≠ '\t') :
    closesBlock (tabs n ++ code) = decide (c = '\x7d') := by
  unfold closesBlock
  rw [(takeWhile_tabs n hc h).2, hc]
  simp

theorem opensBlock_tabs (n : Nat) {last : Char} (hlast : code.toList.getLast? = some last) :
    opensBlock (tabs n ++ code) = decide (last = '\x7b') := by
  unfold opensBlock
  rw [String.toList_append, List.getLast?_append, hlast]
  simp

end

/-! ## Blocks -/

/-- The blocks that are open, innermost first, each with whether a statement stands in it. -/
abbrev OpenBlocks := List Bool

namespace OpenBlocks

/-- The blocks after a statement has started in the innermost. -/
def addStatement : OpenBlocks → OpenBlocks
  | [] => []
  | _ :: outer => true :: outer

/-- The blocks without the innermost, in which a statement must stand. -/
def close : OpenBlocks → Option OpenBlocks
  | true :: outer => some outer
  | _ => none

@[simp] theorem addStatement_cons (block : Bool) (outer : OpenBlocks) :
    addStatement (block :: outer) = true :: outer := rfl

@[simp] theorem length_addStatement (blocks : OpenBlocks) :
    blocks.addStatement.length = blocks.length := by
  cases blocks <;> rfl

@[simp] theorem addStatement_addStatement (blocks : OpenBlocks) :
    blocks.addStatement.addStatement = blocks.addStatement := by
  cases blocks <;> rfl

end OpenBlocks

/-- The blocks that are open after a line.  A line closes a block first and opens one last, and in
between it must be indented by a tab for each open block, besides the tabs of the whole. -/
def readLine (indent : Nat) (blocks : OpenBlocks) (line : String) : Option OpenBlocks :=
  (if closesBlock line then blocks.close else some blocks.addStatement).bind fun outer =>
    if leadingTabs line = indent + outer.length then
      some (if opensBlock line then false :: outer else outer)
    else none

/-- The blocks that are open after some lines. -/
def readLines (indent : Nat) (blocks : OpenBlocks) (lines : List String) : Option OpenBlocks :=
  lines.foldlM (readLine indent) blocks

section

variable {indent : Nat} {blocks outer : OpenBlocks}

@[simp] theorem readLines_nil : readLines indent blocks [] = some blocks := rfl

theorem readLines_cons (line : String) (lines : List String) :
    readLines indent blocks (line :: lines) =
      (readLine indent blocks line).bind fun after => readLines indent after lines := rfl

theorem readLines_append (lines lines' : List String) :
    readLines indent blocks (lines ++ lines') =
      (readLines indent blocks lines).bind fun after => readLines indent after lines' :=
  List.foldlM_append

end

/-! ## Lines of code -/

/-- A line of code as it stands in a fragment. -/
def Line.text (names : Names) (line : Line) : String :=
  tabs line.level ++ Template.fill line.code names

/-- The same line some levels higher. -/
def Line.raise (k : Nat) (line : Line) : Line :=
  ⟨k + line.level, line.code⟩

section

variable {names : Names}

theorem Template.fill_append (a b : Template) :
    Template.fill (a ++ b) names = Template.fill a names ++ Template.fill b names := by
  unfold Template.fill
  rw [List.map_append, String.join_append]

theorem Template.fill_cons (piece : Piece) (a : Template) :
    Template.fill (piece :: a) names = piece.fill names ++ Template.fill a names := by
  unfold Template.fill
  rw [List.map_cons, String.join_cons]

theorem Line.text_raise (k : Nat) (line : Line) :
    (line.raise k).text names = tabs k ++ line.text names := by
  unfold Line.text Line.raise
  rw [tabs_add, String.append_assoc]

theorem Line.fill_template (line : Line) :
    Template.fill line.template names = line.text names ++ "\n" := by
  unfold Line.template Line.text
  rw [List.cons_append, Template.fill_cons, Template.fill_append, ← String.append_assoc]
  rfl

theorem fill_flatMap_template (lines : List Line) :
    Template.fill (lines.flatMap Line.template) names =
      joinLines (lines.map (Line.text names)) := by
  induction lines with
  | nil => rfl
  | cons line lines ih =>
    rw [List.flatMap_cons, Template.fill_append, ih, line.fill_template]
    unfold joinLines
    rw [List.map_cons, List.map_cons, String.join_cons]

/-- A fragment is an empty line and the lines of its program. -/
theorem fill_layout (level : Nat) (program : List Statement) :
    (layout level program).fill names =
      joinLines ("" :: (programLines level program).map (Line.text names)) := by
  unfold layout
  rw [Template.fill_cons, fill_flatMap_template]
  unfold joinLines
  rw [List.map_cons, String.join_cons]
  rfl

end

theorem programLines_append (level : Nat) (p q : List Statement) :
    programLines level (p ++ q) = programLines level p ++ programLines level q := by
  induction p with
  | nil => rfl
  | cons s p ih => rw [List.cons_append, programLines, programLines, ih, List.append_assoc]

mutual

theorem Statement.lines_add (k level : Nat) : ∀ s : Statement,
    s.lines (k + level) = (s.lines level).map (Line.raise k)
  | .record path => rfl
  | .ifUnequal check path body => by
    have ih := programLines_add k (level + 1) body
    simp only [Statement.lines, List.map_cons, List.map_append, Nat.add_assoc, ih,
      List.cons_append, List.map_nil, Line.raise]
  | .ifOneNil path mismatch present => by
    have ihm := programLines_add k (level + 1) mismatch
    have ihp := programLines_add k (level + 1) present
    simp only [Statement.lines, List.map_cons, List.map_append, Nat.add_assoc, ihm, ihp,
      List.cons_append, List.map_nil, Line.raise]

/-- At a higher level, the lines of a program are the same with more tabs. -/
theorem programLines_add (k level : Nat) : ∀ program : List Statement,
    programLines (k + level) program = (programLines level program).map (Line.raise k)
  | [] => rfl
  | s :: program => by
    simp only [programLines, List.map_append, Statement.lines_add k level s,
      programLines_add k level program]

end

/-! ## Plain texts -/

/-- The text has no line breaks, tabs and braces. -/
def IsPlainText (s : String) : Prop :=
  ∀ c ∈ s.toList, c ≠ '\n' ∧ c ≠ '\t' ∧ c ≠ '\x7b' ∧ c ≠ '\x7d'

/-- The texts with which a fragment refers to its surroundings are plain. -/
def Names.IsPlain (names : Names) : Prop :=
  ∀ hole : Hole, IsPlainText (names.of hole)

theorem IsPlainText.append {s t : String} (hs : IsPlainText s) (ht : IsPlainText t) :
    IsPlainText (s ++ t) := by
  intro c hc
  rw [String.toList_append] at hc
  rcases List.mem_append.1 hc with hc | hc
  · exact hs c hc
  · exact ht c hc

theorem isPlainText_dot : IsPlainText "." := by
  simp [IsPlainText]

theorem IsPlainText.dropLeadingDots {s : String} (hs : IsPlainText s) :
    IsPlainText (dropLeadingDots s) := by
  intro c hc
  unfold ResourceDelta.dropLeadingDots at hc
  rw [String.toList_ofList] at hc
  exact hs c ((List.dropWhile_sublist _).mem hc)

/-- Plain operands and a plain way to the Spec make plain names. -/
theorem Operands.names_isPlain {o : Operands} {target : Flavor} (hdelta : IsPlainText o.delta)
    (hleft : IsPlainText o.left) (hright : IsPlainText o.right)
    (hroot : IsPlainText target.specRoot) : (o.names target).IsPlain := by
  intro hole
  cases hole with
  | left => exact hleft.append hroot
  | right => exact hright.append hroot
  | root =>
    show IsPlainText (if dropLeadingDots target.specRoot = "" then "" else _)
    split
    · intro c hc
      cases hc
    · exact hroot.dropLeadingDots.append isPlainText_dot
  | delta => exact hdelta

theorem FieldName.mem_text {n : FieldName} {c : Char} (hc : c ∈ n.text.toList) :
    c.isAlphanum = true ∨ c = '_' := by
  obtain ⟨d, ds, htext, hd, hds⟩ := isFieldName_iff.1 n.isName
  rw [htext] at hc
  rcases List.mem_cons.1 hc with rfl | hc
  · refine hd.imp_left fun ha => ?_
    unfold Char.isAlphanum
    rw [ha, Bool.true_or]
  · exact hds c hc

/-- A path is written with letters, digits, underscores and dots. -/
theorem FieldPath.mem_text {p : FieldPath} {c : Char} (hc : c ∈ p.text.toList) :
    c = '.' ∨ c.isAlphanum = true ∨ c = '_' := by
  unfold text at hc
  rw [String.toList_append, String.toList_join, List.mem_append, List.mem_flatMap] at hc
  rcases hc with hc | ⟨t, ht, hc⟩
  · exact .inr (FieldName.mem_text hc)
  · obtain ⟨s, -, rfl⟩ := List.mem_map.1 ht
    cases s with
    | member n =>
      rw [Step.text, String.toList_append, List.mem_append] at hc
      exact hc.imp (fun h => by simpa using h) FieldName.mem_text
    | elementMember n =>
      rw [Step.text, String.toList_append, List.mem_append] at hc
      exact hc.imp (fun h => by simpa using h) FieldName.mem_text

theorem FieldPath.isPlainText (p : FieldPath) : IsPlainText p.text := by
  intro c hc
  refine ⟨?_, ?_, ?_, ?_⟩ <;> rintro rfl <;> revert hc <;>
    exact fun hc => absurd (FieldPath.mem_text hc) (by decide)

/-! ## Reading lines of code -/

section

variable {names : Names} {indent : Nat} {blocks outer : OpenBlocks} {path : FieldPath}

theorem head?_fill (s : String) (code : Template) {c : Char} (h : s.toList.head? = some c) :
    (Template.fill (.text s :: code) names).toList.head? = some c := by
  rw [Template.fill_cons, Piece.fill, String.toList_append, List.head?_append, h]
  rfl

theorem getLast?_fill (code : Template) (s : String) {c : Char} (h : s.toList.getLast? = some c) :
    (Template.fill (code ++ [.text s]) names).toList.getLast? = some c := by
  have hs : Template.fill [.text s] names = s := by simp [Template.fill, Piece.fill]
  rw [Template.fill_append, hs, String.toList_append, List.getLast?_append, h]
  rfl

/-- What a line does to the blocks depends on the first and the last character of its code. -/
theorem readLine_text {level : Nat} {code : Template} {c last : Char}
    (hc : (Template.fill code names).toList.head? = some c) (htab : c ≠ '\t')
    (hlast : (Template.fill code names).toList.getLast? = some last) :
    readLine indent blocks (Line.text names ⟨level, code⟩) =
      (if c = '\x7d' then blocks.close else some blocks.addStatement).bind fun outer =>
        if level = indent + outer.length then
          some (if last = '\x7b' then false :: outer else outer)
        else none := by
  unfold readLine Line.text
  rw [closesBlock_tabs _ hc htab, leadingTabs_tabs _ hc htab, opensBlock_tabs _ hlast]
  simp only [decide_eq_true_eq]

variable {level : Nat}

theorem readLine_opening {code : Template} (hlevel : level = indent + blocks.length)
    (hc : (Template.fill code names).toList.head? = some 'i')
    (hlast : (Template.fill code names).toList.getLast? = some '\x7b') :
    readLine indent blocks (Line.text names ⟨level, code⟩) =
      some (false :: blocks.addStatement) := by
  rw [readLine_text hc (by decide) hlast]
  simp [hlevel]

theorem readLine_unequal (check : Check) (hlevel : level = indent + blocks.length) :
    readLine indent blocks (Line.text names ⟨level, unequalLine check path⟩) =
      some (false :: blocks.addStatement) :=
  readLine_opening hlevel (head?_fill "if " _ (by simp)) (getLast?_fill _ " \x7b" (by simp))

theorem readLine_oneNil (hlevel : level = indent + blocks.length) :
    readLine indent blocks (Line.text names ⟨level, oneNilLine path⟩) =
      some (false :: blocks.addStatement) :=
  readLine_opening hlevel (head?_fill "if ackcompare.HasNilDifference(" _ (by simp))
    (getLast?_fill _ ") \x7b" (by simp))

theorem readLine_present (hlevel : level = indent + outer.length) :
    readLine indent (true :: outer) (Line.text names ⟨level, presentLine path⟩) =
      some (false :: outer) := by
  have hc : (Template.fill (presentLine path) names).toList.head? = some '\x7d' :=
    head?_fill "\x7d else if " _ (by simp)
  have hlast : (Template.fill (presentLine path) names).toList.getLast? = some '\x7b' :=
    getLast?_fill _ " != nil \x7b" (by simp)
  rw [readLine_text hc (by decide) hlast]
  simp [OpenBlocks.close, hlevel]

theorem readLine_closing (hlevel : level = indent + outer.length) :
    readLine indent (true :: outer) (Line.text names ⟨level, closingLine⟩) = some outer := by
  have hc : (Template.fill closingLine names).toList.head? = some '\x7d' :=
    head?_fill "\x7d" [] (by simp)
  have hlast : (Template.fill closingLine names).toList.getLast? = some '\x7d' :=
    getLast?_fill [] "\x7d" (by simp)
  rw [readLine_text hc (by decide) hlast]
  simp [OpenBlocks.close, hlevel]

theorem readLine_record (h : names.IsPlain) (hlevel : level = indent + blocks.length) :
    readLine indent blocks (Line.text names ⟨level, recordLine path⟩) =
      some blocks.addStatement := by
  have hcall : IsPlainText (names.delta ++ ".Add(\"") :=
    (h .delta).append (by simp [IsPlainText])
  obtain ⟨c, cs, hcs⟩ : ∃ c cs, (names.delta ++ ".Add(\"").toList = c :: cs :=
    List.exists_cons_of_ne_nil (by simp)
  obtain ⟨-, htab, -, hbrace⟩ := hcall c (by simp [hcs])
  have hc : (Template.fill (recordLine path) names).toList.head? = some c := by
    have hcode : Template.fill (recordLine path) names =
        names.delta ++ ".Add(\"" ++ Template.fill ((recordLine path).drop 2) names := by
      rw [String.append_assoc]
      simp [recordLine, Template.fill_cons, Piece.fill, Names.of]
    rw [hcode, String.toList_append, hcs]
    rfl
  have hlast : (Template.fill (recordLine path) names).toList.getLast? = some ')' :=
    getLast?_fill _ ")" (by simp)
  rw [readLine_text hc htab hlast]
  simp [hbrace, hlevel]

end

/-! ## Reading programs -/

mutual

/-- Every block of the statement has a statement in it. -/
def Statement.IsFilled : Statement → Prop
  | .record _ => True
  | .ifUnequal _ _ body => body ≠ [] ∧ IsFilledProgram body
  | .ifOneNil _ mismatch present =>
    (mismatch ≠ [] ∧ IsFilledProgram mismatch) ∧ present ≠ [] ∧ IsFilledProgram present

/-- Every block of the statements has a statement in it. -/
def IsFilledProgram : List Statement → Prop
  | [] => True
  | statement :: program => statement.IsFilled ∧ IsFilledProgram program

end

theorem isFilledProgram_append {p q : List Statement} (hp : IsFilledProgram p)
    (hq : IsFilledProgram q) : IsFilledProgram (p ++ q) := by
  induction p with
  | nil => exact hq
  | cons s p ih => exact ⟨hp.1, ih hp.2⟩

/-- The programs of outlines have no empty blocks. -/
theorem Outline.isFilledProgram_read {ignored : FieldPath → Bool} {scope : Scope} {os : Outline} :
    IsFilledProgram (os.read .statements ignored scope) := by
  refine read_induction trivial isFilledProgram_append ?_ ?_
  · intro path kind h
    obtain ⟨check, hcheck⟩ := TypeKind.exists_check h
    simp only [Reading.statements, hcheck, FieldTree.leafStatements]
    split <;> simp [IsFilledProgram, Statement.IsFilled]
  · intro path members h
    simp only [Reading.statements, FieldTree.structStatements]
    split
    · trivial
    · rename_i hne
      have hne : members ≠ [] := by simpa using hne
      exact ⟨⟨⟨List.cons_ne_nil _ _, trivial, trivial⟩, hne, h⟩, trivial⟩

section

variable {names : Names} {indent : Nat}

mutual

/-- The lines of a statement close the blocks that they open, and leave one statement more in the
innermost block around them. -/
theorem Statement.readLines_lines (h : names.IsPlain) {level : Nat} {blocks : OpenBlocks}
    (hlevel : level = indent + blocks.length) : ∀ {s : Statement}, s.IsFilled →
      readLines indent blocks ((s.lines level).map (Line.text names)) = some blocks.addStatement
  | .record path, _ => by
    simp only [Statement.lines, List.map_cons, List.map_nil, readLines_cons,
      readLine_record h hlevel, Option.bind_some, readLines_nil]
  | .ifUnequal check path body, hs => by
    have hclose : level = indent + blocks.addStatement.length := by simpa using hlevel
    have hinner : level + 1 = indent + (false :: blocks.addStatement).length := by
      rw [List.length_cons, hclose, Nat.add_assoc]
    have hbody := readLines_program h hinner hs.2
    rw [List.isEmpty_eq_false_iff.2 hs.1] at hbody
    simp only [Statement.lines, List.map_cons, List.map_append, List.map_nil, List.cons_append,
      readLines_cons, readLines_append, readLines_nil, Option.bind_some,
      readLine_unequal check hlevel, hbody, Bool.false_eq_true, if_false,
      OpenBlocks.addStatement_cons, readLine_closing hclose]
  | .ifOneNil path mismatch present, hs => by
    have hclose : level = indent + blocks.addStatement.length := by simpa using hlevel
    have hinner : level + 1 = indent + (false :: blocks.addStatement).length := by
      rw [List.length_cons, hclose, Nat.add_assoc]
    have hmismatch := readLines_program h hinner hs.1.2
    have hpresent := readLines_program h hinner hs.2.2
    rw [List.isEmpty_eq_false_iff.2 hs.1.1] at hmismatch
    rw [List.isEmpty_eq_false_iff.2 hs.2.1] at hpresent
    simp only [Statement.lines, List.map_cons, List.map_append, List.map_nil, List.cons_append,
      readLines_cons, readLines_append, readLines_nil, Option.bind_some, readLine_oneNil hlevel,
      hmismatch, hpresent, Bool.false_eq_true, if_false, OpenBlocks.addStatement_cons,
      readLine_present hclose, readLine_closing hclose]

/-- The lines of a program close the blocks that they open. -/
theorem readLines_program (h : names.IsPlain) {level : Nat} {blocks : OpenBlocks}
    (hlevel : level = indent + blocks.length) : ∀ {program : List Statement},
      IsFilledProgram program →
        readLines indent blocks ((programLines level program).map (Line.text names)) =
          some (if program.isEmpty then blocks else blocks.addStatement)
  | [], _ => rfl
  | s :: program, hp => by
    have hlevel' : level = indent + blocks.addStatement.length := by simpa using hlevel
    have hs := Statement.readLines_lines h hlevel hp.1
    have hrest := readLines_program h hlevel' hp.2
    simp only [programLines, List.map_append, readLines_append, hs, Option.bind_some, hrest]
    simp

end

end

/-! ## Characters of lines -/

/-- What is written in a line. -/
inductive IsCode : Template → Prop
  | record (path : FieldPath) : IsCode (recordLine path)
  | unequal (check : Check) (path : FieldPath) : IsCode (unequalLine check path)
  | oneNil (path : FieldPath) : IsCode (oneNilLine path)
  | present (path : FieldPath) : IsCode (presentLine path)
  | closing : IsCode closingLine

mutual

theorem Statement.isCode_of_mem {level : Nat} {line : Line} : ∀ {s : Statement},
    line ∈ s.lines level → IsCode line.code
  | .record path, hl => by
    rw [List.mem_singleton.1 hl]
    exact .record path
  | .ifUnequal check path body, hl => by
    simp only [Statement.lines, List.cons_append, List.mem_cons, List.mem_append, List.not_mem_nil,
      or_false] at hl
    rcases hl with rfl | hl | rfl
    · exact .unequal check path
    · exact isCode_of_mem hl
    · exact .closing
  | .ifOneNil path mismatch present, hl => by
    simp only [Statement.lines, List.cons_append, List.mem_cons, List.mem_append, List.not_mem_nil,
      or_false] at hl
    rcases hl with rfl | (hl | rfl | hl) | rfl
    · exact .oneNil path
    · exact isCode_of_mem hl
    · exact .present path
    · exact isCode_of_mem hl
    · exact .closing

theorem isCode_of_mem {level : Nat} {line : Line} : ∀ {program : List Statement},
    line ∈ programLines level program → IsCode line.code
  | [], hl => absurd hl List.not_mem_nil
  | s :: program, hl => by
    rcases List.mem_append.1 hl with hl | hl
    · exact Statement.isCode_of_mem hl
    · exact isCode_of_mem hl

end

section

variable {names : Names} {code : Template}

theorem mem_fill {c : Char} :
    c ∈ (Template.fill code names).toList ↔ ∃ piece ∈ code, c ∈ (piece.fill names).toList := by
  unfold Template.fill
  rw [String.toList_join, List.mem_flatMap]
  simp only [List.mem_map, exists_exists_and_eq_and]

theorem IsCode.newline_not_mem (hhole : ∀ hole : Hole, '\n' ∉ (names.of hole).toList)
    (hcode : IsCode code) : '\n' ∉ (Template.fill code names).toList := by
  have hpath : ∀ path : FieldPath, '\n' ∉ path.text.toList := fun path hmem =>
    (path.isPlainText _ hmem).1 rfl
  rw [mem_fill]
  cases hcode with
  | record path => simp [recordLine, operand, Piece.fill, hhole, hpath]
  | unequal check path =>
    cases check <;> simp [unequalLine, Check.condition, operand, Piece.fill, hhole, hpath]
  | oneNil path => simp [oneNilLine, operand, Piece.fill, hhole, hpath]
  | present path => simp [presentLine, operand, Piece.fill, hhole, hpath]
  | closing => simp [closingLine, Piece.fill]

theorem IsCode.exists_visible (hcode : IsCode code) :
    ∃ c ∈ (Template.fill code names).toList, c.isWhitespace = false := by
  have hpiece : ∀ (s : String) (c : Char), .text s ∈ code → c ∈ s.toList →
      c.isWhitespace = false → ∃ c ∈ (Template.fill code names).toList, c.isWhitespace = false :=
    fun s c hs hc hvisible => ⟨c, mem_fill.2 ⟨.text s, hs, hc⟩, hvisible⟩
  cases hcode with
  | record path => exact hpiece ".Add(\"" '.' (by simp [recordLine]) (by simp) rfl
  | unequal check path => exact hpiece "if " 'i' (by simp [unequalLine]) (by simp) rfl
  | oneNil path =>
    exact hpiece "if ackcompare.HasNilDifference(" 'i' (by simp [oneNilLine]) (by simp) rfl
  | present path => exact hpiece " != nil \x7b" '!' (by simp [presentLine]) (by simp) rfl
  | closing => exact hpiece "\x7d" '\x7d' (by simp [closingLine]) (by simp) rfl

end

/-! ## The main result -/

/-- The lines of a fragment, from the first line of code on. -/
structure IsLaidOut (indent : Nat) (lines : List String) : Prop where
  /-- They are single lines. -/
  single : ∀ line ∈ lines, '\n' ∉ line.toList
  /-- None of them is blank. -/
  visible : ∀ line ∈ lines, ∃ c ∈ line.toList, c.isWhitespace = false
  /-- Each has a tab for each block that is open at it besides the tabs of the whole, no block is
  closed that is not open, every block has a statement in it, and all blocks are closed. -/
  nested : readLines indent [] lines = some []

/-- The lines of a program are single lines, if the texts that it refers to are. -/
theorem newline_not_mem_programLines {names : Names}
    (h : ∀ hole : Hole, '\n' ∉ (names.of hole).toList) (indent : Nat) (program : List Statement) :
    ∀ text ∈ (programLines indent program).map (Line.text names), '\n' ∉ text.toList := by
  intro text htext
  obtain ⟨line, hline, rfl⟩ := List.mem_map.1 htext
  unfold Line.text
  rw [String.toList_append, toList_tabs, List.mem_append]
  rintro (htab | hcode)
  · exact absurd (List.eq_of_mem_replicate htab) (by decide)
  · exact (isCode_of_mem hline).newline_not_mem h hcode

/-- The lines of a program without empty blocks are laid out. -/
theorem isLaidOut_programLines {names : Names} (h : names.IsPlain) (indent : Nat)
    {program : List Statement} (hp : IsFilledProgram program) :
    IsLaidOut indent ((programLines indent program).map (Line.text names)) where
  single := newline_not_mem_programLines (fun hole hc => (h hole _ hc).1 rfl) indent program
  visible := by
    intro text htext
    obtain ⟨line, hline, rfl⟩ := List.mem_map.1 htext
    obtain ⟨c, hc, hvisible⟩ := (isCode_of_mem hline).exists_visible
    refine ⟨c, ?_, hvisible⟩
    unfold Line.text
    rw [String.toList_append]
    exact List.mem_append_right _ hc
  nested := by
    rw [readLines_program h (by simp) hp]
    simp [OpenBlocks.addStatement]

/-- Further in, the lines of a program are the same with more tabs before them. -/
theorem text_programLines_add (names : Names) (k indent : Nat) (program : List Statement) :
    (programLines (indent + k) program).map (Line.text names) =
      ((programLines indent program).map (Line.text names)).map (tabs k ++ ·) := by
  rw [Nat.add_comm, programLines_add, List.map_map, List.map_map]
  exact List.map_congr_left fun line _ => line.text_raise k

/-- **A fragment is an empty line and lines that are indented by the blocks they stand in**, if the
texts that it refers to are plain.  Further in, it has the same lines with more tabs. -/
theorem compareResource_indented {definition : ResourceDefinition} {overrides : Overrides}
    {flavor : Flavor} {resource : Resource}
    (h : Resource.build definition overrides flavor = .ok resource) (target : Flavor)
    (operands : Operands) (hdelta : IsPlainText operands.delta) (hleft : IsPlainText operands.left)
    (hright : IsPlainText operands.right) (hroot : IsPlainText target.specRoot) (indent : Nat) :
    ∃ lines : List String, IsLaidOut indent lines ∧
      compareResource target resource operands indent = .ok (joinLines ("" :: lines)) ∧
      ∀ k : Nat, compareResource target resource operands (indent + k) =
        .ok (joinLines ("" :: lines.map (tabs k ++ ·))) := by
  obtain ⟨⟨os, -, hos⟩, -⟩ := Resource.build_outlines h
  have hplain := Operands.names_isPlain hdelta hleft hright hroot
  have hfilled : IsFilledProgram (os.read .statements resource.spec.ignores .top) :=
    Outline.isFilledProgram_read
  refine ⟨_, isLaidOut_programLines hplain indent hfilled, ?_, fun k => ?_⟩
  · rw [compareResource_eq hos, fill_layout]
  · rw [compareResource_eq hos, fill_layout, text_programLines_add]

theorem compareResource_indented_store : ∃ (resource : Resource) (lines : List String),
    Resource.build storeDefinition storeOverrides .ack = .ok resource ∧ IsLaidOut 1 lines ∧
      compareResource .crossplane resource .standard 1 = .ok (joinLines ("" :: lines)) ∧
      compareResource .crossplane resource .standard 3 =
        .ok (joinLines ("" :: lines.map (tabs 2 ++ ·))) := by
  obtain ⟨resource, h⟩ := build_store
  obtain ⟨lines, hlines, hfragment, hfurther⟩ := compareResource_indented h .crossplane .standard
    (by simp [IsPlainText, Operands.standard]) (by simp [IsPlainText, Operands.standard])
    (by simp [IsPlainText, Operands.standard]) (by simp [IsPlainText, Flavor.crossplane]) 1
  exact ⟨resource, lines, h, hlines, hfragment, hfurther 2⟩

end ResourceDelta
