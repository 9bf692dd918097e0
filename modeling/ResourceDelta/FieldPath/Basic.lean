/-!
# Field paths

A path leads from a top-level field of a resource to a field below it.  It is a field name followed
by steps, each to a member of a struct or to a member of the elements of a list or map, so every
path starts and ends with a name and never passes through two element wildcards in a row.

* `FieldPath.segments` is the flat view: names, with a wildcard wherever the path enters elements.
* `FieldPath.text` is the written form: segments joined by dots, a wildcard being an empty segment.
* `FieldPath.parent`, `FieldPath.ancestors` and `FieldPath.isBelow` relate a path to those above it.
* The order of paths goes segment by segment, a name before a wildcard and a path before its
  extensions.
-/

set_option autoImplicit false

namespace ResourceDelta

/-! ## Names -/

/-- A field name may start with an ASCII letter or an underscore. -/
def isNameStart (c : Char) : Bool :=
  c.isAlpha || c == '_'

/-- After its start, a field name may also hold ASCII digits. -/
def isNameRest (c : Char) : Bool :=
  c.isAlphanum || c == '_'

/-- Whether a text is a field name. -/
def isFieldName (text : String) : Bool :=
  match text.toList with
  | [] => false
  | c :: cs => isNameStart c && cs.all isNameRest

/-- The name of a field. -/
structure FieldName where
  text : String
  isName : isFieldName text = true
  deriving DecidableEq, Repr

/-! ## Steps and segments -/

/-- One step down from a field. -/
inductive Step where
  /-- To a member of a struct. -/
  | member (name : FieldName)
  /-- To a member of the elements of a list or map. -/
  | elementMember (name : FieldName)
  deriving DecidableEq, Repr

/-- The name that a step leads to. -/
def Step.name : Step → FieldName
  | .member name => name
  | .elementMember name => name

/-- Whether a step enters the elements of a list or map. -/
def Step.entersElements : Step → Bool
  | .member _ => false
  | .elementMember _ => true

/-- A step as it is written after the path it extends. -/
def Step.text : Step → String
  | .member name => "." ++ name.text
  | .elementMember name => ".." ++ name.text

/-- One segment of the flat view of a path. -/
inductive Segment where
  /-- The field of that name. -/
  | field (name : String)
  /-- Any element of a list or map. -/
  | element
  deriving DecidableEq, Repr

namespace Segment

/-- The name of a segment that is no wildcard. -/
def name? : Segment → Option String
  | .field name => some name
  | .element => none

/-- Whether a segment is the wildcard. -/
def isElement : Segment → Bool
  | .field _ => false
  | .element => true

/-- The written form: a wildcard is empty. -/
def text : Segment → String
  | .field name => name
  | .element => ""

/-- Names are ordered by their characters, and a name comes before the wildcard. -/
protected def compare : Segment → Segment → Ordering
  | .field a, .field b => Ord.compare a b
  | .field _, .element => .lt
  | .element, .field _ => .gt
  | .element, .element => .eq

instance : Ord Segment := ⟨Segment.compare⟩

end Segment

/-- The segments that a step adds to a path. -/
def Step.segments : Step → List Segment
  | .member name => [.field name.text]
  | .elementMember name => [.element, .field name.text]

/-! ## Paths -/

/-- The way from a top-level field to a field at or below it. -/
structure FieldPath where
  root : FieldName
  steps : List Step
  deriving DecidableEq, Repr

namespace FieldPath

/-- The flat view of a path. -/
def segments (p : FieldPath) : List Segment :=
  .field p.root.text :: p.steps.flatMap Step.segments

/-- The written form of a path. -/
def text (p : FieldPath) : String :=
  p.root.text ++ String.join (p.steps.map Step.text)

instance : ToString FieldPath := ⟨text⟩

/-- The name of the field that a path leads to. -/
def name (p : FieldPath) : String :=
  match p.steps.getLast? with
  | none => p.root.text
  | some s => s.name.text

/-- The path extended by one step. -/
def extend (p : FieldPath) (s : Step) : FieldPath :=
  ⟨p.root, p.steps ++ [s]⟩

/-- The path without its last step; a top-level field has no parent. -/
def parent (p : FieldPath) : Option FieldPath :=
  match p.steps with
  | [] => none
  | s :: ss => some ⟨p.root, (s :: ss).dropLast⟩

theorem steps_length_of_parent {p q : FieldPath} (h : p.parent = some q) :
    q.steps.length < p.steps.length := by
  unfold parent at h
  split at h
  · simp at h
  · next s ss hs =>
    cases h
    simp [hs]

/-- The parent, its parent and so on up to the top-level field. -/
def ancestors (p : FieldPath) : List FieldPath :=
  match _h : p.parent with
  | none => []
  | some q => q :: q.ancestors
termination_by p.steps.length
decreasing_by exact steps_length_of_parent _h

/-- Whether `p` leads to a field strictly below the one that `q` leads to. -/
def isBelow (p q : FieldPath) : Bool :=
  decide (q.segments.length < p.segments.length) && q.segments.isPrefixOf p.segments

/-- Whether a path enters the elements of a list or map. -/
def hasWildcard (p : FieldPath) : Bool :=
  p.segments.any Segment.isElement

/-- The number of names on a path. -/
def depth (p : FieldPath) : Nat :=
  (p.segments.filter fun s => !s.isElement).length

/-- Paths are compared segment by segment. -/
protected def compare (p q : FieldPath) : Ordering :=
  List.compareLex Ord.compare p.segments q.segments

instance : Ord FieldPath := ⟨FieldPath.compare⟩

/-- The paths in ascending order, repetitions kept. -/
def sort (ps : List FieldPath) : List FieldPath :=
  ps.mergeSort fun p q => (FieldPath.compare p q).isLE

end FieldPath

end ResourceDelta
