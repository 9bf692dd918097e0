import ResourceDelta.Config.Decode
import ResourceDelta.Schema.Decode
import ResourceDelta.Source
import ResourceDelta.Yaml.Document

/-!
# Definitions and configurations in YAML

Definitions and configurations are written as texts with one YAML document.  `Readers.yaml` reads
them.
-/

set_option autoImplicit false

namespace ResourceDelta

/-- The part of a definition's node that is looked at. -/
def definitionPart : Node → Node :=
  Yaml.only fun key => if definitionFields.contains key then some id else none

/-- The part of a configuration's node that is looked at. -/
def configPart : Node → Node :=
  let overrides := Yaml.only fun key => if overridesFields.contains key then some id else none
  Yaml.only fun key =>
    if key = "flavor" then some id
    else if key = "resources" then some (Yaml.only fun _ => some overrides)
    else none

/-- The definition that a text holds. -/
def ResourceDefinition.ofYaml? (text : String) : Option ResourceDefinition := do
  let node ← Yaml.Document.read definitionPart text
  ResourceDefinition.decode node

/-- The configuration that a text holds. -/
def GeneratorConfig.ofYaml? (text : String) : Option GeneratorConfig := do
  let node ← Yaml.Document.read configPart text
  GeneratorConfig.decode node

/-- Texts are read as YAML. -/
def Readers.yaml : Readers :=
  ⟨ResourceDefinition.ofYaml?, GeneratorConfig.ofYaml?⟩

/-- Reads the configuration in a text of YAML. -/
def GeneratorConfig.ofText (text : String) : Except ConfigError GeneratorConfig :=
  Readers.yaml.configInText text

/-- Reads the configuration in a file of YAML. -/
def GeneratorConfig.ofFile (files : Files) (file : String) : Except ConfigError GeneratorConfig :=
  Readers.yaml.configInFile files file

end ResourceDelta
