import ResourceDelta.FieldPath.Basic
import ResourceDelta.Text.Quoted

/-!
# Reading and building field paths

`FieldPath.parse` reads the written form of a path, `FieldPath.ofName`, `FieldPath.child` and
`FieldPath.elementChild` build a path name by name.  All of them say what is wrong with a text that
is no path: `PathError` holds the cause, and `PathError.message` the wording.
-/

set_option autoImplicit false

namespace ResourceDelta

/-- Why a text is no path. -/
inductive PathError where
  /-- There is no text. -/
  | empty
  /-- The first segment is a wildcard. -/
  | leadingWildcard
  /-- The last segment is a wildcard. -/
  | trailingWildcard
  /-- Two wildcards follow each other. -/
  | repeatedWildcard
  /-- The segment at `index` is neither empty nor a field name. -/
  | invalidName (name : String) (index : Nat)
  deriving DecidableEq, Repr

/-- The wording of a path error. -/
def PathError.message : PathError → String
  | .empty => "field path must not be empty"
  | .leadingWildcard => "field path must not start with an element wildcard"
  | .trailingWildcard => "field path must not end with an element wildcard"
  | .repeatedWildcard => "field path must not contain consecutive element wildcards"
  | .invalidName name index =>
    "invalid field name " ++ Text.quoted name ++ " at segment " ++ toString index

/-- The parts of a text between its dots; there is always at least one. -/
def splitAtDots : List Char → List (List Char)
  | [] => [[]]
  | c :: cs =>
    if c = '.' then [] :: splitAtDots cs
    else
      match splitAtDots cs with
      | [] => [[c]]
      | part :: parts => (c :: part) :: parts

/-- The parts of a written path: one for each segment. -/
def pathParts (text : String) : List String :=
  (splitAtDots text.toList).map String.ofList

/-- A text as the field name at segment `index`. -/
def FieldName.read (text : String) (index : Nat) : Except PathError FieldName :=
  if h : isFieldName text = true then .ok ⟨text, h⟩ else .error (.invalidName text index)

/-- Reads the parts from segment `index` on as steps; an empty part is a wildcard, which must have a
name after it. -/
def readSteps (index : Nat) : List String → Except PathError (List Step)
  | [] => .ok []
  | part :: parts =>
    if part = "" then
      match parts with
      | [] => .error .trailingWildcard
      | next :: rest =>
        if next = "" then .error .repeatedWildcard
        else do
          let name ← FieldName.read next (index + 1)
          let steps ← readSteps (index + 2) rest
          return .elementMember name :: steps
    else do
      let name ← FieldName.read part index
      let steps ← readSteps (index + 1) parts
      return .member name :: steps

namespace FieldPath

/-- Reads the written form of a path and reports its first defect. -/
def parse (text : String) : Except PathError FieldPath :=
  if text = "" then .error .empty
  else
    match pathParts text with
    | [] => .error .empty
    | first :: rest =>
      if first = "" then .error .leadingWildcard
      else do
        let root ← FieldName.read first 0
        let steps ← readSteps 1 rest
        return ⟨root, steps⟩

/-- The path of a top-level field. -/
def ofName (name : String) : Except PathError FieldPath :=
  if name = "" then .error .empty
  else do
    let root ← FieldName.read name 0
    return ⟨root, []⟩

/-- The path of a member of the struct at `p`. -/
def child (p : FieldPath) (name : String) : Except PathError FieldPath := do
  let name ← FieldName.read name p.segments.length
  return p.extend (.member name)

/-- The path of a member of the elements of the list or map at `p`. -/
def elementChild (p : FieldPath) (name : String) : Except PathError FieldPath := do
  let name ← FieldName.read name (p.segments.length + 1)
  return p.extend (.elementMember name)

end FieldPath

end ResourceDelta
