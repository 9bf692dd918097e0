import ResourceDelta.Text.Octets

/-!
# YAML tokens

A YAML text is a sequence of tokens.  Indentation is made explicit: block collections are opened and
closed by tokens of their own, and every key of a mapping is preceded by a token, also where the
text has none.  The type of labels is a parameter: anchors and aliases are first named by texts.
-/

set_option autoImplicit false

namespace ResourceDelta.Yaml

/-- A piece of a YAML text. -/
inductive Token (Label : Type) where
  /-- The directive that names a version. -/
  | version (major minor : Nat)
  /-- The directive that lets a handle stand for the start of tags. -/
  | tagHandle (handle : String) (start : Text.Octets)
  | documentStart
  | documentEnd
  | blockSequenceStart
  | blockMappingStart
  | blockEnd
  | flowSequenceStart
  | flowSequenceEnd
  | flowMappingStart
  | flowMappingEnd
  /-- The mark before an entry of a block sequence. -/
  | blockEntry
  /-- The mark between entries of a flow collection. -/
  | flowEntry
  /-- The mark before a key. -/
  | key
  /-- The mark before a value. -/
  | value
  | alias (label : Label)
  | anchor (label : Label)
  | tag (handle : String) (suffix : Text.Octets)
  /-- A scalar; `plain` if it is written without quotes and on no lines of its own. -/
  | scalar (text : String) (plain : Bool)
  deriving DecidableEq, Repr

end ResourceDelta.Yaml
