import ResourceDelta.Config.Written
import ResourceDelta.Data.Node

/-!
# Reading and writing configurations as data

`GeneratorConfig.decode` reads a configuration from a node, `GeneratorConfig.encode` writes one as a
typed value.  The choice of a flavor is read as a typed value: a name, or else a flavor.  Paths and
the names of resources are read as texts.
-/

set_option autoImplicit false

namespace ResourceDelta

/-! ## Reading -/

/-- The names of the built-in flavors, in their order. -/
def flavorTags : List (String × FlavorName) :=
  FlavorName.all.map fun name => (name.text, name)

/-- The name of a built-in flavor: a text, or a map from it to nothing. -/
def FlavorName.decode : Value → Option FlavorName
  | .text s => FlavorName.ofText? s
  | .map [(key, .null)] => key.variant? flavorTags
  | _ => none

/-- The flavor that a value describes. -/
def Flavor.decode (v : Value) : Option Flavor := do
  let fields ← v.record ["prefix", "include_ack_metadata", "set_many_output_not_found_err_return"]
  match fields with
  | [some roots, some includesMetadata, some notFoundReturn] =>
    match ← roots.record ["spec_field", "status_field"] with
    | [some specRoot, some statusRoot] =>
      return ⟨← specRoot.text?, ← statusRoot.text?, ← includesMetadata.bool?,
        ← notFoundReturn.text?⟩
    | _ => none
  | _ => none

/-- The choice of a flavor that a value describes. -/
def FlavorChoice.decode (v : Value) : Option FlavorChoice :=
  match FlavorName.decode v with
  | some name => some (.named name)
  | none => (Flavor.decode v).map .custom

/-- The choice of a flavor that may be left out. -/
def FlavorChoice.decodeOrStandard (n : Option Node) : Option FlavorChoice :=
  match n with
  | none => some (.named .standard)
  | some n => do
    let value ← n.value?
    FlavorChoice.decode value

/-- The texts of a list that may be left out. -/
def decodeTexts (n : Option Node) : Option (List String) := do
  let items ← Node.itemsOrNone n
  items.mapM Node.text?

/-- The fields of the overrides of one resource. -/
def overridesFields : List String :=
  ["ignore", "secret"]

/-- The overrides of one resource that a node describes. -/
def WrittenOverrides.decode (n : Node) : Option WrittenOverrides := do
  match ← n.fields overridesFields with
  | [ignore, secret] => return ⟨← decodeTexts ignore, ← decodeTexts secret⟩
  | _ => none

/-- The written configuration that a node describes. -/
def WrittenConfig.decode (n : Node) : Option WrittenConfig := do
  match ← n.fields ["flavor", "resources"] with
  | [choice, resources] =>
    let choice ← FlavorChoice.decodeOrStandard choice
    let resources ← Node.textEntriesOrNone resources
    let resources ← resources.mapM fun (name, overrides) => do
      let overrides ← WrittenOverrides.decode overrides
      return (name, overrides)
    return ⟨choice, resources⟩
  | _ => none

/-- The configuration that a node describes. -/
def GeneratorConfig.decode (n : Node) : Option GeneratorConfig := do
  let written ← WrittenConfig.decode n
  written.parse.toOption

/-! ## Writing -/

/-- The value that describes a flavor. -/
def Flavor.encode (f : Flavor) : Value :=
  .ofFields
    [("prefix", .ofFields [("spec_field", .text f.specRoot), ("status_field", .text f.statusRoot)]),
      ("include_ack_metadata", .bool f.includesMetadata),
      ("set_many_output_not_found_err_return", .text f.notFoundReturn)]

/-- The value that describes the choice of a flavor. -/
def FlavorChoice.encode : FlavorChoice → Value
  | .named name => .text name.text
  | .custom flavor => flavor.encode

/-- The value that describes the overrides of one resource. -/
def Overrides.encode (o : Overrides) : Value :=
  .ofFields
    [("ignore", .list (o.ignore.map fun p => .text p.text)),
      ("secret", .list (o.secret.map fun p => .text p.text))]

/-- The value that describes a configuration. -/
def GeneratorConfig.encode (c : GeneratorConfig) : Value :=
  .ofFields
    [("flavor", c.choice.encode),
      ("resources", .ofFields (c.resources.entries.map fun (name, o) => (name, o.encode)))]

end ResourceDelta
