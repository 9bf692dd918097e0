import ResourceDelta.FieldPath.Basic
import ResourceDelta.Schema.Kind

/-!
# Comparison programs

A comparison program looks at two resources of one kind and records the fields in which they differ.
It is a list of statements; a field is named by its path, and every condition compares the two
values of one field.
-/

set_option autoImplicit false

namespace ResourceDelta

/-- How two values of a field are found to be unequal. -/
inductive Check where
  /-- By the values that two pointers lead to. -/
  | targets
  /-- As points in time. -/
  | times
  /-- As maps of strings. -/
  | stringMaps
  /-- As lists of strings. -/
  | stringLists
  /-- Byte for byte. -/
  | bytes
  /-- By everything that can be reached from them. -/
  | deep
  deriving DecidableEq, Repr

/-- One statement of a comparison program. -/
inductive Statement where
  /-- Records a difference in a field. -/
  | record (path : FieldPath)
  /-- Runs `body` if the two values of a field are unequal. -/
  | ifUnequal (check : Check) (path : FieldPath) (body : List Statement)
  /-- Runs `mismatch` if one of the two values of a field is nil and the other is not, and `present`
  if neither is nil. -/
  | ifOneNil (path : FieldPath) (mismatch present : List Statement)
  deriving Repr

/-- The check for fields of a kind; structs have none, as they are compared member by member. -/
def TypeKind.check? : TypeKind → Option Check
  | .optionalScalar .timestamp => some .times
  | .optionalScalar _ => some .targets
  | .nestedStruct => none
  | .listOfScalar .string => some .stringLists
  | .listOfScalar _ => some .deep
  | .listOfStruct => some .deep
  | .mapStringToString => some .stringMaps
  | .mapOfStruct => some .deep
  | .byteSequence => some .bytes

end ResourceDelta
