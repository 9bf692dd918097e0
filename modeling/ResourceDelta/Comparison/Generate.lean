import ResourceDelta.Comparison.Program
import ResourceDelta.FieldTree.Basic

/-!
# Generating comparison programs

`FieldTree.comparison` is the program that compares the fields of a tree.  Siblings are compared in
the order of their names.  An ignored field is left out with all below it, and so is a struct of
which nothing is left.  Members of the elements of lists and maps are not compared one by one.

The walk follows the numbers of children.  A child's number is greater than its parent's, and a
number that is not counts as missing, so the walk ends on every tree.
-/

set_option autoImplicit false

namespace ResourceDelta

/-- What makes a field tree unfit for comparison. -/
inductive GenerationDefect where
  /-- A struct has no children. -/
  | childlessStruct (path : FieldPath)
  /-- A field that is no struct has children. -/
  | unexpectedChildren (path : FieldPath) (kind : TypeKind)
  /-- A child of the field at a path is missing among the fields. -/
  | missingChild (path : FieldPath)
  /-- A top-level field is missing among the fields. -/
  | missingRoot (position : Nat)
  deriving DecidableEq, Repr

namespace FieldTree

/-- The number of a field of a tree that is at least `bound`. -/
structure FieldId (t : FieldTree) (bound : Nat) where
  number : Nat
  bound_le : bound ≤ number
  lt_size : number < t.fields.size

/-- The field with a number. -/
def FieldId.field {t : FieldTree} {bound : Nat} (id : t.FieldId bound) : Field :=
  t.fields[Fin.mk id.number id.lt_size]

/-- A number as that of a field that is at least `bound`. -/
def fieldId? (t : FieldTree) (bound number : Nat) : Option (t.FieldId bound) :=
  if h : bound ≤ number ∧ number < t.fields.size then some ⟨number, h.1, h.2⟩ else none

/-- Numbers as those of fields, each at least `bound`; `missing` is the defect of the number at a
position that is none. -/
def fieldIds (t : FieldTree) (bound : Nat) (missing : Nat → GenerationDefect) (numbers : List Nat) :
    Except GenerationDefect (List (t.FieldId bound)) :=
  numbers.zipIdx.mapM fun (number, position) =>
    match t.fieldId? bound number with
    | none => .error (missing position)
    | some id => .ok id

/-- The fields that are compared among siblings, in the order of their names. -/
def compared {t : FieldTree} {bound : Nat} (ids : List (t.FieldId bound)) :
    List (t.FieldId bound) :=
  (ids.mergeSort fun a b => a.field.name ≤ b.field.name).filter fun id => !id.field.isIgnored

/-- The statements that compare a field without children. -/
def leafStatements (field : Field) (check : Check) : List Statement :=
  let body := [.ifUnequal check field.path [.record field.path]]
  if field.kind.isNilable then [.ifOneNil field.path [.record field.path] body] else body

/-- The statements that compare a struct, given those that compare its members. -/
def structStatements (field : Field) (members : List Statement) : List Statement :=
  if members.isEmpty then [] else [.ifOneNil field.path [.record field.path] members]

/-- The statements that compare one field. -/
def fieldStatements (t : FieldTree) {bound : Nat} (id : t.FieldId bound) :
    Except GenerationDefect (List Statement) :=
  let field := id.field
  match field.kind.check? with
  | some check =>
    if !field.children.isEmpty then .error (.unexpectedChildren field.path field.kind)
    else .ok (leafStatements field check)
  | none =>
    if field.children.isEmpty then .error (.childlessStruct field.path)
    else do
      let ids ← t.fieldIds (id.number + 1) (fun _ => .missingChild field.path) field.children
      let members ← (compared ids).mapM fun child => t.fieldStatements child
      return structStatements field members.flatten
termination_by t.fields.size - id.number
decreasing_by
  have := child.bound_le
  have := child.lt_size
  omega

/-- The program that compares the fields of a tree. -/
def comparison (t : FieldTree) : Except GenerationDefect (List Statement) := do
  let ids ← t.fieldIds 0 .missingRoot t.roots
  let members ← (compared ids).mapM fun id => t.fieldStatements id
  return members.flatten

end FieldTree

end ResourceDelta
