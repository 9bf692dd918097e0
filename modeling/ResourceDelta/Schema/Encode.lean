import ResourceDelta.Data.Value
import ResourceDelta.Schema.Definition

/-!
# Writing definitions as data

`ResourceDefinition.encode` gives a definition as a typed value.  A struct's members are left out if
there are none, and so is a shape that is not named.
-/

set_option autoImplicit false

namespace ResourceDelta

/-- A scalar kind as the type of something. -/
def ScalarKind.encode (kind : ScalarKind) : Value :=
  .text kind.name

/-- The entry that names the type of something. -/
def typeEntry (type : String) : String × Value :=
  ("type", .text type)

mutual

/-- The entries that describe the members of a struct. -/
def encodeStruct (members : List FieldDefinition) (shape : Option String) :
    List (String × Value) :=
  (match members with
    | [] => []
    | member :: members =>
      [("members", .list (member.encode :: encodeMembers members))]) ++
    (match shape with
    | none => []
    | some shape => [("shape", .text shape)])

/-- The values that describe some fields. -/
def encodeMembers : List FieldDefinition → List Value
  | [] => []
  | member :: members => member.encode :: encodeMembers members

/-- The value that describes a field. -/
def FieldDefinition.encode : FieldDefinition → Value
  | .leaf name type =>
    .ofFields <| ("name", .text name) ::
      match type with
      | .scalar kind => [typeEntry kind.name]
      | .bytes => [typeEntry "bytes"]
      | .scalarList kind => [typeEntry "list", ("element", .ofFields [typeEntry kind.name])]
      | .stringMap => [typeEntry "map", ("value", .ofFields [typeEntry "string"])]
  | .nested name nesting members shape =>
    .ofFields <| ("name", .text name) ::
      match nesting with
      | .struct => typeEntry "struct" :: encodeStruct members shape
      | .list =>
        [typeEntry "list",
          ("element", .ofFields (typeEntry "struct" :: encodeStruct members shape))]
      | .map =>
        [typeEntry "map",
          ("value", .ofFields (typeEntry "struct" :: encodeStruct members shape))]

end

/-- The value that describes a table of shapes. -/
def ShapeTable.encode (shapes : ShapeTable) : Value :=
  .ofFields (shapes.entries.map fun (name, members) => (name, .list (encodeMembers members)))

/-- The value that describes a resource. -/
def ResourceDefinition.encode (d : ResourceDefinition) : Value :=
  .ofFields
    [("name", .text d.name), ("spec", .list (encodeMembers d.spec)),
      ("status", .list (encodeMembers d.status)), ("shapes", ShapeTable.encode d.shapes)]

end ResourceDelta
