import ResourceDelta.Config.Basic
import ResourceDelta.Schema.Definition
import ResourceDelta.Text.Quoted

/-!
# Definitions and configurations in texts and files

How a text is read as a definition or as a configuration is left open: `Readers` says it.
`Readers.configInText` and `Readers.configInFile` also say why a configuration cannot be had.
-/

set_option autoImplicit false

namespace ResourceDelta

/-- How texts are read. -/
structure Readers where
  /-- The definition that a text holds. -/
  definition : String → Option ResourceDefinition
  /-- The configuration that a text holds. -/
  config : String → Option GeneratorConfig

/-- The content of files by name, as far as it can be read as text. -/
abbrev Files := String → Option String

/-- Why a configuration cannot be had. -/
inductive ConfigError where
  /-- A text holds none. -/
  | unparsable
  /-- A file holds no text. -/
  | unreadableFile (file : String)
  /-- The text in a file holds none. -/
  | unparsableFile (file : String)
  deriving DecidableEq, Repr

/-- The wording of a configuration's error. -/
def ConfigError.message : ConfigError → String
  | .unparsable => "failed to parse generator config"
  | .unreadableFile file => "failed to read generator config from " ++ Text.quoted file
  | .unparsableFile file => "failed to parse generator config from " ++ Text.quoted file

namespace Readers

/-- Reads the configuration in a text. -/
def configInText (readers : Readers) (text : String) : Except ConfigError GeneratorConfig :=
  match readers.config text with
  | none => .error .unparsable
  | some config => .ok config

/-- Reads the configuration in a file. -/
def configInFile (readers : Readers) (files : Files) (file : String) :
    Except ConfigError GeneratorConfig :=
  match files file with
  | none => .error (.unreadableFile file)
  | some text => (readers.configInText text).mapError fun _ => .unparsableFile file

end Readers

end ResourceDelta
