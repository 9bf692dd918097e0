import ResourceDelta.Config.Basic
import ResourceDelta.FieldPath.Reader

/-!
# Configurations as they are written

A written configuration names fields by texts.  It stands for a configuration if all these texts are
paths, `WrittenConfig.parse`; otherwise the first text that is none is reported.
-/

set_option autoImplicit false

namespace ResourceDelta

/-- What is said about the fields of one resource, as it is written. -/
structure WrittenOverrides where
  ignore : List String
  secret : List String
  deriving DecidableEq, Repr

/-- The overrides that written ones stand for. -/
def WrittenOverrides.parse (o : WrittenOverrides) : Except PathError Overrides := do
  let ignore ← o.ignore.mapM FieldPath.parse
  let secret ← o.secret.mapM FieldPath.parse
  return ⟨ignore, secret⟩

/-- The configuration of a generator, as it is written. -/
structure WrittenConfig where
  choice : FlavorChoice
  /-- The resources in their order; of two with one name the later one counts. -/
  resources : List (String × WrittenOverrides)
  deriving DecidableEq, Repr

/-- The configuration that a written one stands for. -/
def WrittenConfig.parse (c : WrittenConfig) : Except PathError GeneratorConfig := do
  let resources ← c.resources.mapM fun (name, written) => do
    let overrides ← written.parse
    return (name, overrides)
  return ⟨c.choice, .ofList resources⟩

end ResourceDelta
