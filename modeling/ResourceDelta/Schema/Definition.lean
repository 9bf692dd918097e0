import ResourceDelta.Schema.Kind
import ResourceDelta.Table

/-!
# Definitions of resources

A definition lists the fields of a resource, those of its Spec and those of its Status.  A field is
a leaf, or it nests further fields: as the members of a struct, of the elements of a list, or of the
values of a map.  The members are listed in place or taken from a named shape.

Nothing is checked here: a definition may name members twice, or list members and name a shape.
-/

set_option autoImplicit false

namespace ResourceDelta

/-- The type of a field that has no members below it. -/
inductive LeafType where
  | scalar (kind : ScalarKind)
  | bytes
  | scalarList (kind : ScalarKind)
  | stringMap
  deriving DecidableEq, Repr

/-- What the members below a field are members of. -/
inductive Nesting where
  /-- Of the field itself. -/
  | struct
  /-- Of the elements of a list. -/
  | list
  /-- Of the values of a map. -/
  | map
  deriving DecidableEq, Repr

/-- The kind of a leaf. -/
def LeafType.kind : LeafType → TypeKind
  | .scalar kind => .optionalScalar kind
  | .bytes => .byteSequence
  | .scalarList kind => .listOfScalar kind
  | .stringMap => .mapStringToString

/-- The kind of a field with members below it. -/
def Nesting.kind : Nesting → TypeKind
  | .struct => .nestedStruct
  | .list => .listOfStruct
  | .map => .mapOfStruct

/-- The definition of one field. -/
inductive FieldDefinition where
  | leaf (name : String) (type : LeafType)
  | nested (name : String) (nesting : Nesting) (members : List FieldDefinition)
      (shape : Option String)
  deriving Repr

namespace FieldDefinition

/-- The name of the field, which need not be a field name. -/
def name : FieldDefinition → String
  | .leaf name _ => name
  | .nested name _ _ _ => name

/-- The kind that the definition prescribes. -/
def kind : FieldDefinition → TypeKind
  | .leaf _ type => type.kind
  | .nested _ nesting _ _ => nesting.kind

/-- A field holding a single value. -/
def scalar (name : String) (kind : ScalarKind) : FieldDefinition :=
  .leaf name (.scalar kind)

/-- A field holding bytes. -/
def bytes (name : String) : FieldDefinition :=
  .leaf name .bytes

/-- A struct with the given members. -/
def struct (name : String) (members : List FieldDefinition) : FieldDefinition :=
  .nested name .struct members none

/-- A struct with the members of a named shape. -/
def shapeRef (name shape : String) : FieldDefinition :=
  .nested name .struct [] (some shape)

/-- A list of single values. -/
def listOf (name : String) (kind : ScalarKind) : FieldDefinition :=
  .leaf name (.scalarList kind)

/-- A list of structs with the given members. -/
def listOfStruct (name : String) (members : List FieldDefinition) : FieldDefinition :=
  .nested name .list members none

/-- A map of strings. -/
def mapOfStrings (name : String) : FieldDefinition :=
  .leaf name .stringMap

/-- A map whose values are structs with the given members. -/
def mapOfStruct (name : String) (members : List FieldDefinition) : FieldDefinition :=
  .nested name .map members none

end FieldDefinition

/-- The named member lists of a definition. -/
abbrev ShapeTable := Table (List FieldDefinition)

/-- The definition of a resource. -/
structure ResourceDefinition where
  name : String
  spec : List FieldDefinition
  status : List FieldDefinition
  shapes : ShapeTable

end ResourceDelta
