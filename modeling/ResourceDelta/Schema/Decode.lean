import ResourceDelta.Data.Node
import ResourceDelta.Schema.Definition

/-!
# Reading definitions from data

`ResourceDefinition.decode`, `FieldDefinition.decodeList` and `ShapeTable.decode` read definitions
from nodes.  The name of a field is read as a text; all else that belongs to a field is read as a
typed value first, and so are the members below it.  Keys that mean nothing are skipped.
-/

set_option autoImplicit false

namespace ResourceDelta

/-! ## Types by name -/

/-- What the type of a field can be. -/
inductive FieldTag where
  | scalar (kind : ScalarKind)
  | bytes
  | struct
  | list
  | map
  deriving DecidableEq, Repr

/-- The names of the types of a field, in their order. -/
def fieldTags : List (String × FieldTag) :=
  ScalarKind.all.map (fun kind => (kind.name, .scalar kind)) ++
    [("bytes", .bytes), ("struct", .struct), ("list", .list), ("map", .map)]

/-- What the type of the elements of a list can be. -/
inductive ElementTag where
  | scalar (kind : ScalarKind)
  | struct
  deriving DecidableEq, Repr

/-- The names of the types of the elements of a list, in their order. -/
def elementTags : List (String × ElementTag) :=
  ScalarKind.all.map (fun kind => (kind.name, .scalar kind)) ++ [("struct", .struct)]

/-- What the type of the values of a map can be. -/
inductive MapValueTag where
  | string
  | struct
  deriving DecidableEq, Repr

/-- The names of the types of the values of a map, in their order. -/
def mapValueTags : List (String × MapValueTag) :=
  [("string", .string), ("struct", .struct)]

/-! ## Fields as typed values -/

/-- The fields that describe the members of a struct. -/
def structFields : List String :=
  ["members", "shape"]

/-- The name of a shape that may be left out. -/
def decodeShape : Option Value → Option (Option String)
  | none => some none
  | some .null => some none
  | some (.text s) => some (some s)
  | _ => none

theorem lex_of_le_of_lt {a b m n : Nat} (hab : a ≤ b) (hmn : m < n) :
    Prod.Lex (· < ·) (· < ·) (a, m) (b, n) := by
  rcases Nat.lt_or_eq_of_le hab with h | rfl
  · exact Prod.Lex.left _ _ h
  · exact Prod.Lex.right _ hmn

mutual

/-- The field with a given name that the rest of its entries describe. -/
def decodeField (name : String) (rest : Value) : Option FieldDefinition :=
  match _tagged : rest.tagged fieldTags with
  | some (.scalar kind, body) => if body.isUnit then some (.leaf name (.scalar kind)) else none
  | some (.bytes, body) => if body.isUnit then some (.leaf name .bytes) else none
  | some (.struct, body) => do
    let (members, shape) ← decodeStruct body
    return .nested name .struct members shape
  | some (.list, body) =>
    match _record : body.record ["element"] with
    | some [some element] => decodeElement name element
    | _ => none
  | some (.map, body) =>
    match _record : body.record ["value"] with
    | some [some value] => decodeMapValue name value
    | _ => none
  | none => none
termination_by (sizeOf rest, 2)
decreasing_by
  · exact lex_of_le_of_lt (Value.sizeOf_le_of_tagged _tagged) (by omega)
  · have := Value.sizeOf_le_of_tagged _tagged
    have := Value.sizeOf_lt_of_record _record (w := element) (by simp)
    exact Prod.Lex.left _ _ (by omega)
  · have := Value.sizeOf_le_of_tagged _tagged
    have := Value.sizeOf_lt_of_record _record (w := value) (by simp)
    exact Prod.Lex.left _ _ (by omega)

/-- The list field with a given name and the described elements. -/
def decodeElement (name : String) (element : Value) : Option FieldDefinition :=
  match _tagged : element.tagged elementTags with
  | some (.scalar kind, body) =>
    if body.isUnit then some (.leaf name (.scalarList kind)) else none
  | some (.struct, body) => do
    let (members, shape) ← decodeStruct body
    return .nested name .list members shape
  | none => none
termination_by (sizeOf element, 2)
decreasing_by
  exact lex_of_le_of_lt (Value.sizeOf_le_of_tagged _tagged) (by omega)

/-- The map field with a given name and the described values. -/
def decodeMapValue (name : String) (value : Value) : Option FieldDefinition :=
  match _tagged : value.tagged mapValueTags with
  | some (.string, body) => if body.isUnit then some (.leaf name .stringMap) else none
  | some (.struct, body) => do
    let (members, shape) ← decodeStruct body
    return .nested name .map members shape
  | none => none
termination_by (sizeOf value, 2)
decreasing_by
  exact lex_of_le_of_lt (Value.sizeOf_le_of_tagged _tagged) (by omega)

/-- The members of a struct and the shape that it names. -/
def decodeStruct (body : Value) : Option (List FieldDefinition × Option String) :=
  match _record : body.record structFields with
  | some [none, shape] => do
    let shape ← decodeShape shape
    return ([], shape)
  | some [some (.list members), shape] => do
    let shape ← decodeShape shape
    let members ← decodeMembers members
    return (members, shape)
  | _ => none
termination_by (sizeOf body, 1)
decreasing_by
  have := Value.sizeOf_lt_of_record _record List.mem_cons_self
  simp at this
  exact Prod.Lex.left _ _ (by omega)

/-- The fields that some values describe. -/
def decodeMembers (members : List Value) : Option (List FieldDefinition) :=
  match members with
  | [] => some []
  | member :: members => do
    let member ← decodeMember member
    let members ← decodeMembers members
    return member :: members
termination_by (sizeOf members, 0)
decreasing_by
  all_goals exact Prod.Lex.left _ _ (by simp only [List.cons.sizeOf_spec]; omega)

/-- The field that a value describes: a map with its name among its entries. -/
def decodeMember (member : Value) : Option FieldDefinition :=
  match member with
  | .map entries =>
    if entries.all fun e => e.1.isFieldKey then do
      let name ← ← Value.only? (Value.isText "name") entries
      let name ← name.text?
      decodeField name (.map (Value.without (Value.isText "name") entries))
    else none
  | _ => none
termination_by (sizeOf member, 3)
decreasing_by
  have := Value.sizeOf_filter_le (fun e => !Value.isText "name" e.1) entries
  exact lex_of_le_of_lt (by simp [Value.without]; omega) (by omega)

end

/-! ## Fields and definitions as nodes -/

/-- The field that a node describes. -/
def FieldDefinition.decode (n : Node) : Option FieldDefinition := do
  let entries ← n.textEntries?
  let name ← ← Node.only? "name" entries
  let name ← name.text?
  let rest ← (entries.filter fun e => e.1 ≠ "name").mapM fun (key, value) => do
    let value ← value.value?
    return (Value.text key, value)
  decodeField name (.map rest)

/-- The fields that the items of a node describe. -/
def FieldDefinition.decodeList (n : Node) : Option (List FieldDefinition) := do
  let items ← n.items?
  items.mapM FieldDefinition.decode

/-- The fields of a list that may be left out. -/
def FieldDefinition.decodeListOrNone (n : Option Node) : Option (List FieldDefinition) := do
  let items ← Node.itemsOrNone n
  items.mapM FieldDefinition.decode

/-- The shapes of a table that may be left out; of two shapes with one name the later one counts. -/
def ShapeTable.decode (n : Option Node) : Option ShapeTable := do
  let entries ← Node.textEntriesOrNone n
  let shapes ← entries.mapM fun (name, members) => do
    let members ← FieldDefinition.decodeList members
    return (name, members)
  return .ofList shapes

/-- The fields of a resource's definition. -/
def definitionFields : List String :=
  ["name", "spec", "status", "shapes"]

/-- The definition that a node describes. -/
def ResourceDefinition.decode (n : Node) : Option ResourceDefinition := do
  match ← n.fields definitionFields with
  | [some name, spec, status, shapes] =>
    let name ← name.text?
    let spec ← FieldDefinition.decodeListOrNone spec
    let status ← FieldDefinition.decodeListOrNone status
    let shapes ← ShapeTable.decode shapes
    return ⟨name, spec, status, shapes⟩
  | _ => none

end ResourceDelta
