import ResourceDelta.Config.Flavor
import ResourceDelta.FieldTree.Basic
import ResourceDelta.Table

/-!
# Generator configurations

A configuration chooses a flavor and says for some resources which of their fields are ignored and
which are secret.
-/

set_option autoImplicit false

namespace ResourceDelta

/-- What a configuration says about the fields of one resource. -/
structure Overrides where
  ignore : List FieldPath
  secret : List FieldPath
  deriving DecidableEq, Repr

namespace Overrides

/-- Nothing said. -/
def none : Overrides := ⟨[], []⟩

/-- Whether a path or one above it is listed as ignored. -/
def isIgnored (o : Overrides) (path : FieldPath) : Bool :=
  o.ignore.any fun p => p = path || path.isBelow p

/-- Whether a path is listed as secret. -/
def isSecret (o : Overrides) (path : FieldPath) : Bool :=
  o.secret.any fun p => p = path

/-- What is said path by path: first the ignored paths, then the secret ones. -/
def entries (o : Overrides) : List (FieldPath × FieldFlags) :=
  o.ignore.map (·, .ignored) ++ o.secret.map (·, .confidential)

end Overrides

/-- The configuration of a generator. -/
structure GeneratorConfig where
  choice : FlavorChoice
  resources : Table Overrides

namespace GeneratorConfig

/-- The configuration that says nothing. -/
def standard : GeneratorConfig :=
  ⟨.named .standard, .empty⟩

/-- The chosen flavor. -/
def flavor (c : GeneratorConfig) : Flavor :=
  c.choice.flavor

/-- What is said about the resource with a given name. -/
def overridesOf (c : GeneratorConfig) (resource : String) : Overrides :=
  (c.resources.find? resource).getD .none

end GeneratorConfig

end ResourceDelta
