/-!
# Flavors

A flavor is a controller convention: where the fields of the two roots of a resource are found, and
two settings for other generators.  `FlavorName` names the built-in flavors, and a configuration
holds a `FlavorChoice`: one of these names or a flavor of its own.
-/

set_option autoImplicit false

namespace ResourceDelta

/-- A controller convention. -/
structure Flavor where
  /-- What leads from a resource to the fields of its Spec. -/
  specRoot : String
  /-- What leads from a resource to the fields of its Status. -/
  statusRoot : String
  /-- Whether generated resources carry controller metadata. -/
  includesMetadata : Bool
  /-- The statement with which generated code returns when nothing is found. -/
  notFoundReturn : String
  deriving DecidableEq, Repr

/-- The names of the built-in flavors. -/
inductive FlavorName where
  | ack
  | crossplane
  deriving DecidableEq, Repr

namespace FlavorName

/-- All built-in flavors. -/
def all : List FlavorName :=
  [.ack, .crossplane]

/-- The flavor used when none is chosen. -/
def standard : FlavorName := .ack

/-- The name as it is written. -/
def text : FlavorName → String
  | .ack => "ack"
  | .crossplane => "crossplane"

/-- The built-in flavor with that name. -/
def ofText? (text : String) : Option FlavorName :=
  all.find? fun name => name.text = text

end FlavorName

namespace Flavor

/-- Fields stand directly below the roots. -/
def ack : Flavor :=
  ⟨".Spec", ".Status", true, "return nil, ackerr.NotFound"⟩

/-- Fields stand in objects of the provider below the roots. -/
def crossplane : Flavor :=
  ⟨".Spec.ForProvider", ".Status.AtProvider", false, "return cr"⟩

/-- The built-in flavor of a name. -/
def named : FlavorName → Flavor
  | .ack => ack
  | .crossplane => crossplane

/-- The flavor with another way to the fields of the Spec. -/
def withSpecRoot (f : Flavor) (specRoot : String) : Flavor :=
  { f with specRoot := specRoot }

end Flavor

/-- How a configuration chooses a flavor. -/
inductive FlavorChoice where
  | named (name : FlavorName)
  | custom (flavor : Flavor)
  deriving DecidableEq, Repr

/-- The flavor that was chosen. -/
def FlavorChoice.flavor : FlavorChoice → Flavor
  | .named name => .named name
  | .custom flavor => flavor

end ResourceDelta
