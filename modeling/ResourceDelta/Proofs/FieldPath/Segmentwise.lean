import ResourceDelta.Proofs.FieldPath.Parsing

/-!
# Paths as rows of segments

A path can be handled as a bare row of segments, where nothing keeps wildcards from its ends or
apart.  Such rows are begun, read, extended and shortened here segment by segment; on the rows of
paths this is what the functions on paths do.

* `writeRow`, `beginRow`, `readRow`, `extendRow`, `shortenRow` — the functions on rows.
* `readRow_eq` — a text is read as the row of the path that it is read as; the induction goes over
  the parts, as long as the row so far does not end in a wildcard.
* `shortenRow_segments` — the row of the parent is left when the last name goes, and with it the
  wildcard before it.
-/

set_option autoImplicit false

namespace ResourceDelta

/-- One way to go down from a path. -/
inductive Extension where
  /-- To a member of a struct. -/
  | child (name : String)
  /-- To a member of the elements of a list or map. -/
  | elementChild (name : String)
  deriving DecidableEq, Repr

namespace Extension

/-- The name that an extension adds, which need not be a field name. -/
def name : Extension → String
  | .child name => name
  | .elementChild name => name

/-- What an extension puts before the name. -/
def gap : Extension → List Segment
  | .child _ => []
  | .elementChild _ => [.element]

/-- The step that an extension makes with a name. -/
def step : Extension → FieldName → Step
  | .child _, n => .member n
  | .elementChild _, n => .elementMember n

theorem segments_step (e : Extension) (n : FieldName) :
    (e.step n).segments = e.gap ++ [.field n.text] := by
  cases e <;> rfl

end Extension

/-- The path at the end of an extension. -/
def FieldPath.extendBy (p : FieldPath) : Extension → Except PathError FieldPath
  | .child name => p.child name
  | .elementChild name => p.elementChild name

/-! ## Functions on rows -/

/-- The written form of a row. -/
def writeRow (ss : List Segment) : String :=
  ".".intercalate (ss.map Segment.text)

/-- The row of a top-level field. -/
def beginRow (name : String) : Except PathError (List Segment) :=
  if name = "" then .error .empty
  else if isFieldName name then .ok [.field name]
  else .error (.invalidName name 0)

/-- A row extended by a name, perhaps past a wildcard. -/
def extendRow (ss : List Segment) (e : Extension) : Except PathError (List Segment) :=
  if isFieldName e.name then .ok (ss ++ e.gap ++ [.field e.name])
  else .error (.invalidName e.name (ss.length + e.gap.length))

/-- A row of at least two segments without its last one, and without a wildcard before that. -/
def shortenRow (ss : List Segment) : Option (List Segment) :=
  if ss.length < 2 then none
  else if ss.dropLast.getLast? = some .element then some ss.dropLast.dropLast
  else some ss.dropLast

/-- Puts the parts from `index` on behind a row. -/
def readParts (index : Nat) (ss : List Segment) : List String → Except PathError (List Segment)
  | [] => if ss.getLast? = some .element then .error .trailingWildcard else .ok ss
  | part :: parts =>
    if part = "" then
      if index = 0 then .error .leadingWildcard
      else if ss.getLast? = some .element then .error .repeatedWildcard
      else readParts (index + 1) (ss ++ [.element]) parts
    else if isFieldName part then readParts (index + 1) (ss ++ [.field part]) parts
    else .error (.invalidName part index)

/-- The row that a text is the written form of. -/
def readRow (text : String) : Except PathError (List Segment) :=
  if text = "" then .error .empty else readParts 0 [] (dotParts text)

/-! ## Rows of paths -/

/-- A name is read, or it is blamed. -/
theorem FieldName.read_bind {α : Type} {text : String} {index : Nat}
    {f : FieldName → Except PathError α} :
    (FieldName.read text index >>= f) =
      if h : isFieldName text = true then f ⟨text, h⟩ else .error (.invalidName text index) := by
  unfold FieldName.read
  split <;> rfl

namespace FieldPath

theorem child_eq (p : FieldPath) (name : String) :
    p.child name =
      if h : isFieldName name = true then .ok (p.extend (.member ⟨name, h⟩))
      else .error (.invalidName name p.segments.length) :=
  FieldName.read_bind

theorem elementChild_eq (p : FieldPath) (name : String) :
    p.elementChild name =
      if h : isFieldName name = true then .ok (p.extend (.elementMember ⟨name, h⟩))
      else .error (.invalidName name (p.segments.length + 1)) :=
  FieldName.read_bind

theorem writeRow_segments (p : FieldPath) : writeRow p.segments = p.text :=
  p.text_eq.symm

theorem beginRow_eq (name : String) : beginRow name = (FieldPath.ofName name).map segments := by
  unfold beginRow ofName
  rw [FieldName.read_bind]
  split
  · rfl
  · split <;> rfl

theorem extendBy_eq (p : FieldPath) (e : Extension) :
    p.extendBy e =
      if h : isFieldName e.name = true then .ok (p.extend (e.step ⟨e.name, h⟩))
      else .error (.invalidName e.name (p.segments.length + e.gap.length)) := by
  cases e with
  | child name => exact p.child_eq name
  | elementChild name => exact p.elementChild_eq name

theorem extendRow_segments (p : FieldPath) (e : Extension) :
    extendRow p.segments e = (p.extendBy e).map segments := by
  rw [extendRow, extendBy_eq]
  by_cases h : isFieldName e.name = true
  · rw [if_pos h, dif_pos h]
    show _ = Except.ok (p.extend (e.step ⟨e.name, h⟩)).segments
    rw [p.segments_extend, e.segments_step, List.append_assoc]
  · rw [if_neg h, dif_neg h]
    rfl

/-- The last segment of a path is a name. -/
theorem getLast?_segments_ne (p : FieldPath) : p.segments.getLast? ≠ some .element := by
  obtain ⟨n, hn⟩ := p.segments_canonical.ends
  rw [hn]
  simp

/-- The row of the parent is what is left when the last name goes, and the wildcard before it. -/
theorem shortenRow_segments (p : FieldPath) :
    shortenRow p.segments = p.parent.map segments := by
  induction p using extend_induction with
  | root n => rfl
  | extend p s _ =>
    have hpos : 0 < p.segments.length := by simp [segments]
    rw [parent_extend, Option.map_some, segments_extend]
    unfold shortenRow
    cases s with
    | member n =>
      have hlength : ¬ (p.segments ++ [Segment.field n.text]).length < 2 := by
        rw [List.length_append, List.length_singleton]
        omega
      rw [Step.segments, if_neg hlength, List.dropLast_concat, if_neg p.getLast?_segments_ne]
    | elementMember n =>
      have hlength : ¬ (p.segments ++ [Segment.element, Segment.field n.text]).length < 2 := by
        simp
      have hlast : p.segments ++ [Segment.element, Segment.field n.text] =
          (p.segments ++ [.element]) ++ [.field n.text] := by simp
      rw [Step.segments, if_neg hlength, hlast, List.dropLast_concat, List.getLast?_concat,
        if_pos rfl, List.dropLast_concat]

/-! ## Reading rows -/

/-- Behind a row that ends in a name, parts are read as the segments of steps. -/
theorem readParts_eq {index : Nat} {parts : List String} {ss : List Segment} (started : index ≠ 0)
    (afterName : ss.getLast? ≠ some .element) :
    readParts index ss parts =
      (readSteps index parts).map fun steps => ss ++ steps.flatMap Step.segments := by
  induction index, parts using readSteps.induct generalizing ss with
  | case1 index => simp [readParts, readSteps, afterName, Except.map]
  | case2 index => simp [readParts, readSteps, started, afterName, Except.map]
  | case3 index rest =>
    rw [readSteps_wildcard, if_pos rfl]
    simp [readParts, started, afterName, Except.map]
  | case4 index next rest hnext ih =>
    rw [readSteps_wildcard, if_neg hnext, FieldName.read_bind]
    by_cases h : isFieldName next = true
    · have hread : readParts (index + 2) (ss ++ [.element] ++ [.field next]) rest = _ :=
        ih (Nat.succ_ne_zero _) (by simp)
      simp only [readParts, if_true, if_neg started, if_neg afterName, if_neg hnext, if_pos h,
        hread, dif_pos h]
      cases readSteps (index + 2) rest with
      | error e => rfl
      | ok steps => simp [Except.map, bind, Except.bind, pure, Except.pure, Step.segments]
    · simp [readParts, started, afterName, hnext, h, Except.map]
  | case5 index part rest hpart ih =>
    rw [readSteps_name hpart, FieldName.read_bind]
    by_cases h : isFieldName part = true
    · have hread : readParts (index + 1) (ss ++ [.field part]) rest = _ :=
        ih (Nat.succ_ne_zero _) (by simp)
      simp only [readParts, if_neg hpart, if_pos h, hread, dif_pos h]
      cases readSteps (index + 1) rest with
      | error e => rfl
      | ok steps => simp [Except.map, bind, Except.bind, pure, Except.pure, Step.segments]
    · simp [readParts, hpart, h, Except.map]

/-- **A text is read as the row of the path that it is read as.** -/
theorem readRow_eq (text : String) : readRow text = (FieldPath.parse text).map segments := by
  unfold readRow
  by_cases htext : text = ""
  · simp [parse, htext, Except.map]
  obtain ⟨first, rest, hparts⟩ := List.exists_cons_of_ne_nil (dotParts_ne_nil text)
  rw [if_neg htext, parse_parts htext hparts, hparts]
  by_cases hfirst : first = ""
  · simp [readParts, hfirst, Except.map]
  rw [if_neg hfirst, FieldName.read_bind]
  by_cases h : isFieldName first = true
  · have hread : readParts 1 [.field first] rest = _ :=
      readParts_eq Nat.one_ne_zero (by simp)
    simp only [readParts, if_neg hfirst, if_pos h, List.nil_append, hread, dif_pos h]
    cases readSteps 1 rest with
    | error e => rfl
    | ok steps => rfl
  · simp [readParts, hfirst, h, Except.map]

end FieldPath

end ResourceDelta
