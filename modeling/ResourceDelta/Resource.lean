import ResourceDelta.Config.Basic
import ResourceDelta.FieldTree.Build
import ResourceDelta.FieldTree.Override

/-!
# Resources

A resource has a field tree for its Spec and one for its Status, with the overrides of a
configuration attached, and a flavor.  `Resource.build` makes it from a definition.

An override applies to each of the two trees that has its path, and to one of them at least.
-/

set_option autoImplicit false

namespace ResourceDelta

/-- The fields of a resource, ready for generation. -/
structure Resource where
  name : String
  spec : FieldTree
  status : FieldTree
  flavor : Flavor
  deriving DecidableEq, Repr

/-- Adds flags to the field with a given path, if the tree has it. -/
def FieldTree.attachIfPresent (t : FieldTree) (path : FieldPath) (flags : FieldFlags) :
    Except Defect FieldTree :=
  if t.contains path then t.attach path flags else .ok t

/-- Adds flags to the fields with a given path in the trees of both roots. -/
def attachToRoots (trees : FieldTree × FieldTree) (override : FieldPath × FieldFlags) :
    Except Defect (FieldTree × FieldTree) :=
  let (path, flags) := override
  if !trees.1.contains path && !trees.2.contains path then .error (.danglingOverride path)
  else do
    let spec ← trees.1.attachIfPresent path flags
    let status ← trees.2.attachIfPresent path flags
    return (spec, status)

namespace Resource

/-- The trees of a definition with overrides attached one after the other. -/
def buildTrees (definition : ResourceDefinition) (overrides : Overrides) :
    Except Defect (FieldTree × FieldTree) := do
  let spec ← FieldTree.build definition.shapes definition.spec
  let status ← FieldTree.build definition.shapes definition.status
  overrides.entries.foldlM attachToRoots (spec, status)

/-- The resource that a definition and overrides describe. -/
def build (definition : ResourceDefinition) (overrides : Overrides) (flavor : Flavor) :
    Except BuildError Resource := do
  let (spec, status) ← (buildTrees definition overrides).mapError (⟨definition.name, ·⟩)
  return ⟨definition.name, spec, status, flavor⟩

/-- The resource that a definition describes under a configuration. -/
def ofConfig (definition : ResourceDefinition) (config : GeneratorConfig) :
    Except BuildError Resource :=
  build definition (config.overridesOf definition.name) config.flavor

/-- The field with a given path, looked for in the Spec first. -/
def resolve (r : Resource) (path : FieldPath) : Option Field :=
  (r.spec.resolve path).or (r.status.resolve path)

/-- Whether a path is at or below an ignored field of either root. -/
def isIgnored (r : Resource) (path : FieldPath) : Bool :=
  r.spec.isIgnored path || r.status.isIgnored path

/-- Whether a path leads to a secret field. -/
def isSecret (r : Resource) (path : FieldPath) : Bool :=
  (r.resolve path).any Field.isSecret

end Resource

end ResourceDelta
