import ResourceDelta.Comparison.Generate
import ResourceDelta.Comparison.Layout
import ResourceDelta.Resource

/-!
# Comparison fragments

`compareResource` is the fragment of Go that compares two resources of one kind, for use under a
flavor.  Only the Spec is compared.
-/

set_option autoImplicit false

namespace ResourceDelta

/-- The first characters of a text that are dots left out. -/
def dropLeadingDots (s : String) : String :=
  String.ofList (s.toList.dropWhile (· = '.'))

/-- How a fragment refers to its surroundings. -/
structure Operands where
  /-- The collector of differences. -/
  delta : String
  /-- The left resource. -/
  left : String
  /-- The right resource. -/
  right : String
  deriving DecidableEq, Repr

/-- The operands used when nothing else is said. -/
def Operands.standard : Operands := ⟨"delta", "a.ko", "b.ko"⟩

/-- What the holes of a fragment stand for under a flavor.  A recorded path starts with the way to
the Spec, without the dots before it. -/
def Operands.names (o : Operands) (flavor : Flavor) : Names where
  left := o.left ++ flavor.specRoot
  right := o.right ++ flavor.specRoot
  root :=
    let root := dropLeadingDots flavor.specRoot
    if root = "" then "" else root ++ "."
  delta := o.delta

/-- A defect met while a resource was compared. -/
structure GenerationError where
  resource : String
  /-- The way to the fields that were compared. -/
  root : String
  defect : GenerationDefect
  deriving DecidableEq, Repr

/-- The wording of a generation error. -/
def GenerationError.message (e : GenerationError) : String :=
  let ofResource := " of resource " ++ Text.quoted e.resource
  match e.defect with
  | .childlessStruct path =>
    "internal error: struct field " ++ path.text ++ ofResource ++ " has no children"
  | .unexpectedChildren path kind =>
    "internal error: " ++ kind.label ++ " field " ++ path.text ++ ofResource ++
      " must not have children"
  | .missingChild path =>
    "internal error: field " ++ path.text ++ ofResource ++
      " references a child missing from the field index"
  | .missingRoot position =>
    "internal error: top-level field #" ++ toString position ++ " below " ++ Text.quoted e.root ++
      ofResource ++ " is missing from the field index"

/-- The fragment that compares two resources, indented by `indent` tabs.

An indentation is any number here.  As a machine word it has a largest value, at which the level of
a block inside, one higher, overflows; that, and texts too long for a memory, are left out. -/
def compareResource (flavor : Flavor) (resource : Resource) (operands : Operands) (indent : Nat) :
    Except GenerationError String := do
  let program ← resource.spec.comparison.mapError
    (⟨resource.name, dropLeadingDots flavor.specRoot, ·⟩)
  return (layout indent program).fill (operands.names flavor)

end ResourceDelta
