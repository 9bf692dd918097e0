import ResourceDelta.FieldPath.Reader

/-!
# Defects of definitions and overrides

`Defect` is what keeps a resource from being built: a fault of its definition, or of the overrides
given for it.  `BuildError` adds the resource, and `BuildError.message` has the wording.
-/

set_option autoImplicit false

namespace ResourceDelta

/-- What is wrong with a definition or an override. -/
inductive Defect where
  /-- No field has the path of an override. -/
  | danglingOverride (path : FieldPath)
  /-- Overrides ignore a field and mark it as secret. -/
  | conflictingOverride (path : FieldPath)
  /-- The members of a field are those of a shape that there is not. -/
  | unresolvedShape (path : FieldPath) (shape : String)
  /-- The members of a field are those of a shape that the field is itself below. -/
  | recursiveShape (path : FieldPath) (shape : String)
  /-- A field that should have members below it has none. -/
  | emptyStruct (path : FieldPath)
  /-- A field has members of its own and names a shape. -/
  | ambiguousStruct (path : FieldPath)
  /-- Two members of one list have the same name. -/
  | duplicateField (path : FieldPath)
  /-- The name of a field is no field name. -/
  | invalidName (cause : PathError)
  deriving DecidableEq, Repr

/-- A defect met while a resource was built. -/
structure BuildError where
  resource : String
  defect : Defect
  deriving DecidableEq, Repr

namespace BuildError

/-- The wording of a build error. -/
def message (e : BuildError) : String :=
  let ofResource := " of resource " ++ Text.quoted e.resource
  match e.defect with
  | .danglingOverride path =>
    "override " ++ path.text ++ ofResource ++ " does not match any field"
  | .conflictingOverride path =>
    "field " ++ path.text ++ ofResource ++ " cannot be both ignored and secret"
  | .unresolvedShape path shape =>
    "field " ++ path.text ++ ofResource ++ " references unknown shape " ++ Text.quoted shape
  | .recursiveShape path shape =>
    "field " ++ path.text ++ ofResource ++ " references shape " ++ Text.quoted shape ++
      " recursively"
  | .emptyStruct path =>
    "struct field " ++ path.text ++ ofResource ++ " has no members"
  | .ambiguousStruct path =>
    "struct field " ++ path.text ++ ofResource ++
      " must either list members or reference a shape"
  | .duplicateField path =>
    "field " ++ path.text ++ ofResource ++ " is defined more than once"
  | .invalidName _ =>
    "invalid field name in resource " ++ Text.quoted e.resource

/-- The error that led to this one. -/
def cause? (e : BuildError) : Option PathError :=
  match e.defect with
  | .invalidName cause => some cause
  | _ => none

end BuildError

end ResourceDelta
