import ResourceDelta.FieldTree.Basic
import ResourceDelta.FieldTree.Defect
import ResourceDelta.Schema.Definition

/-!
# Building a field tree

`FieldTree.build` checks a list of definitions and indexes its fields, with named shapes replaced by
their members.  The fields are visited in the order of their definition, a field before its members,
and the first defect met is reported.

A shape may be used many times, but not below itself: `visiting` holds the shapes that the current
place is inside of, outermost first.  Each step into a shape leaves fewer shapes unvisited, so the
visit ends.
-/

set_option autoImplicit false

namespace ResourceDelta

/-- Where a list of members stands. -/
inductive Scope where
  /-- At the top of a resource's root. -/
  | top
  /-- In the struct at a path. -/
  | struct (path : FieldPath)
  /-- In the elements of the list or map at a path. -/
  | elements (path : FieldPath)
  deriving DecidableEq, Repr

/-- The path of the member with a given name. -/
def Scope.path : Scope → String → Except PathError FieldPath
  | .top, name => FieldPath.ofName name
  | .struct path, name => path.child name
  | .elements path, name => path.elementChild name

/-- Where the members below a field stand. -/
def Nesting.scope : Nesting → FieldPath → Scope
  | .struct, path => .struct path
  | .list, path => .elements path
  | .map, path => .elements path

/-- A field with its members filled in. -/
def Field.withMembers (nesting : Nesting) (ids : List Nat) (f : Field) : Field :=
  match nesting with
  | .struct => { f with children := ids }
  | .list => { f with elementMembers := ids }
  | .map => { f with elementMembers := ids }

/-- The number of shapes that are not being visited. -/
def unvisited (shapes : ShapeTable) (visiting : List String) : Nat :=
  (shapes.keys.filter fun key => key ∉ visiting).length

theorem length_filter_lt {α : Type} {p q : α → Bool} {a : α} :
    ∀ {l : List α}, (∀ x, q x = true → p x = true) → a ∈ l → p a = true → q a = false →
      (l.filter q).length < (l.filter p).length
  | b :: l, hqp, hmem, hp, hq => by
    have hle : (l.filter q).length ≤ (l.filter p).length := by
      have : l.filter q = (l.filter p).filter q := by
        rw [List.filter_filter]
        congr 1
        funext x
        cases hx : q x <;> simp [hqp x, hx]
      rw [this]
      exact List.length_filter_le ..
    rcases List.mem_cons.1 hmem with rfl | hmem
    · simp [hp, hq]
      omega
    · have ih := length_filter_lt hqp hmem hp hq
      simp only [List.filter_cons]
      split
      · next h => simp [hqp b h, ih]
      · split <;> simp <;> omega

theorem unvisited_append_lt {shapes : ShapeTable} {visiting : List String} {shape : String}
    (hkey : shape ∈ shapes.keys) (hnew : shape ∉ visiting) :
    unvisited shapes (visiting ++ [shape]) < unvisited shapes visiting :=
  length_filter_lt (fun x hx => by simp_all) hkey (by simpa using hnew) (by simp)

mutual

/-- Appends the field at `path` and all fields below it. -/
def insertField (shapes : ShapeTable) (visiting : List String) (path : FieldPath)
    (fields : Array Field) (definition : FieldDefinition) : Except Defect (Array Field) :=
  if fields.any fun f => f.path = path then .error (.duplicateField path)
  else
    match definition with
    | .leaf _ type => .ok (fields.push (.bare path type.kind))
    | .nested _ nesting members shape => do
      let id := fields.size
      let fields := fields.push (.bare path nesting.kind)
      let (ids, fields) ←
        match shape with
        | none =>
          if members.isEmpty then .error (.emptyStruct path)
          else insertMembers shapes visiting (nesting.scope path) fields members
        | some shape =>
          if !members.isEmpty then .error (.ambiguousStruct path)
          else if _new : shape ∈ visiting then .error (.recursiveShape path shape)
          else
            match _found : shapes.find? shape with
            | none => .error (.unresolvedShape path shape)
            | some members =>
              if members.isEmpty then .error (.emptyStruct path)
              else
                insertMembers shapes (visiting ++ [shape]) (nesting.scope path) fields members
      return fields.modify id (Field.withMembers nesting ids)
termination_by (unvisited shapes visiting, sizeOf definition)
decreasing_by
  · exact Prod.Lex.right _ (by simp only [FieldDefinition.nested.sizeOf_spec]; omega)
  · exact Prod.Lex.left _ _ (unvisited_append_lt (Table.mem_keys_of_find? _found) _new)

/-- Appends the members of one list and all fields below them, and tells the members' numbers. -/
def insertMembers (shapes : ShapeTable) (visiting : List String) (scope : Scope)
    (fields : Array Field) (members : List FieldDefinition) :
    Except Defect (List Nat × Array Field) :=
  match members with
  | [] => .ok ([], fields)
  | member :: members => do
    let path ← (scope.path member.name).mapError .invalidName
    let id := fields.size
    let fields ← insertField shapes visiting path fields member
    let (ids, fields) ← insertMembers shapes visiting scope fields members
    return (id :: ids, fields)
termination_by (unvisited shapes visiting, sizeOf members)
decreasing_by
  · exact Prod.Lex.right _ (by simp only [List.cons.sizeOf_spec]; omega)
  · exact Prod.Lex.right _ (by simp only [List.cons.sizeOf_spec]; omega)

end

/-- The tree of the fields that a list of definitions describes. -/
def FieldTree.build (shapes : ShapeTable) (definitions : List FieldDefinition) :
    Except Defect FieldTree := do
  let (roots, fields) ← insertMembers shapes [] .top #[] definitions
  return ⟨fields, roots⟩

end ResourceDelta
