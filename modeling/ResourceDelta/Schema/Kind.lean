/-!
# Kinds of fields

`ScalarKind` is the type of a single value, `TypeKind` the kind of a field: it decides how two
values of the field are compared, and whether the field can be absent.
-/

set_option autoImplicit false

namespace ResourceDelta

/-- The type of a single value. -/
inductive ScalarKind where
  | string
  | integer
  | float
  | boolean
  | timestamp
  deriving DecidableEq, Repr

namespace ScalarKind

/-- All scalar kinds in their order. -/
def all : List ScalarKind :=
  [.string, .integer, .float, .boolean, .timestamp]

/-- The name of a scalar kind, as it is written in definitions. -/
def name : ScalarKind → String
  | .string => "string"
  | .integer => "integer"
  | .float => "float"
  | .boolean => "boolean"
  | .timestamp => "timestamp"

/-- The scalar kind of that name. -/
def ofName? (name : String) : Option ScalarKind :=
  all.find? fun k => k.name = name

/-- The place of a scalar kind in the order. -/
def position : ScalarKind → Nat
  | .string => 0
  | .integer => 1
  | .float => 2
  | .boolean => 3
  | .timestamp => 4

/-- Scalar kinds are ordered by their position. -/
protected def compare (a b : ScalarKind) : Ordering :=
  Ord.compare a.position b.position

instance : Ord ScalarKind := ⟨ScalarKind.compare⟩

end ScalarKind

/-- The kind of a field. -/
inductive TypeKind where
  /-- A single value, which may be absent. -/
  | optionalScalar (kind : ScalarKind)
  /-- A struct, which may be absent. -/
  | nestedStruct
  /-- A list of single values. -/
  | listOfScalar (kind : ScalarKind)
  /-- A list of structs. -/
  | listOfStruct
  /-- A map of strings, which may be absent. -/
  | mapStringToString
  /-- A map whose values are structs. -/
  | mapOfStruct
  /-- A run of bytes. -/
  | byteSequence
  deriving DecidableEq, Repr

namespace TypeKind

/-- The name of a kind in messages. -/
def label : TypeKind → String
  | .optionalScalar _ => "optional-scalar"
  | .nestedStruct => "nested-struct"
  | .listOfScalar _ => "list-of-scalar"
  | .listOfStruct => "list-of-struct"
  | .mapStringToString => "map-string-to-string"
  | .mapOfStruct => "map-of-struct"
  | .byteSequence => "byte-sequence"

/-- The scalar kind that a kind holds. -/
def scalar? : TypeKind → Option ScalarKind
  | .optionalScalar kind => some kind
  | .listOfScalar kind => some kind
  | _ => none

/-- The kind with a given label, holding a scalar kind where kinds of that label do. -/
def ofLabel? (label : String) (scalar : Option ScalarKind) : Option TypeKind :=
  let candidates :=
    [.nestedStruct, .listOfStruct, .mapStringToString, .mapOfStruct, .byteSequence] ++
      (scalar.map fun k => [.optionalScalar k, .listOfScalar k]).getD []
  candidates.find? fun k => k.label = label

/-- Whether a field of this kind has members of its own. -/
def isStruct : TypeKind → Bool
  | .nestedStruct => true
  | _ => false

/-- Whether a field of this kind may be absent in a way that is recorded apart from its value. -/
def isNilable : TypeKind → Bool
  | .optionalScalar _ => true
  | .nestedStruct => true
  | .mapStringToString => true
  | _ => false

end TypeKind

end ResourceDelta
