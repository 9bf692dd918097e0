import ResourceDelta.FieldPath.Basic
import ResourceDelta.Schema.Kind

/-!
# Field trees

A field tree holds the fields below one root of a resource, addressed by their paths.  A field's
number is its place among the fields; a field comes before its members, and siblings stand in the
order of their definition.  Members of a struct are its children, members of the elements of a list
or map its element members; both are held as numbers.
-/

set_option autoImplicit false

namespace ResourceDelta

/-- What a configuration says about one field. -/
structure FieldFlags where
  /-- The field and all below it are left out of comparisons. -/
  ignore : Bool
  /-- The field's value is confidential. -/
  secret : Bool
  deriving DecidableEq, Repr

namespace FieldFlags

/-- No flag set. -/
def none : FieldFlags := ⟨false, false⟩

/-- Only ignored. -/
def ignored : FieldFlags := ⟨true, false⟩

/-- Only secret. -/
def confidential : FieldFlags := ⟨false, true⟩

/-- The flags set in either. -/
def union (a b : FieldFlags) : FieldFlags :=
  ⟨a.ignore || b.ignore, a.secret || b.secret⟩

/-- Whether a field is said to be both ignored and secret. -/
def isConflict (f : FieldFlags) : Bool :=
  f.ignore && f.secret

end FieldFlags

/-- One field of a tree. -/
structure Field where
  path : FieldPath
  kind : TypeKind
  /-- The members of a struct, by number. -/
  children : List Nat
  /-- The members of the elements of a list or map, by number. -/
  elementMembers : List Nat
  /-- What overrides said about the field, if any did. -/
  flags : Option FieldFlags
  deriving DecidableEq, Repr

namespace Field

/-- A field without members and overrides. -/
def bare (path : FieldPath) (kind : TypeKind) : Field :=
  ⟨path, kind, [], [], none⟩

/-- The last name of the field's path. -/
def name (f : Field) : String :=
  f.path.name

/-- Whether an override ignores this very field. -/
def isIgnored (f : Field) : Bool :=
  f.flags.any FieldFlags.ignore

/-- Whether an override marks this very field as secret. -/
def isSecret (f : Field) : Bool :=
  f.flags.any FieldFlags.secret

end Field

/-- The fields below one root of a resource. -/
structure FieldTree where
  fields : Array Field
  /-- The top-level fields, by number. -/
  roots : List Nat
  deriving DecidableEq, Repr

namespace FieldTree

/-- The tree without fields. -/
def empty : FieldTree := ⟨#[], []⟩

/-- The number of fields. -/
def size (t : FieldTree) : Nat :=
  t.fields.size

/-- The field with a given path. -/
def resolve (t : FieldTree) (path : FieldPath) : Option Field :=
  t.fields.find? fun f => f.path = path

/-- Whether some field has a given path. -/
def contains (t : FieldTree) (path : FieldPath) : Bool :=
  t.fields.any fun f => f.path = path

/-- Whether an override ignores the field with a given path or one above it.  The path itself need
not lead to a field. -/
def isIgnored (t : FieldTree) (path : FieldPath) : Bool :=
  (path :: path.ancestors).any fun p => (t.resolve p).any Field.isIgnored

end FieldTree

end ResourceDelta
