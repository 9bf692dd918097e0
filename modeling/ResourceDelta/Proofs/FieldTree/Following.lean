import ResourceDelta.Proofs.FieldTree.Indexed

/-!
# Following paths through definitions

A path can be followed from name to name through the definitions of a resource: below a field come
the members that it lists, or those of the shape that it names, as members of a struct or of the
elements of a list or map.

* `FieldDefinition.membersIn` — the members below a field under a table of shapes.
* `LeadsTo` — a path leads from a list of members to the definition of a field.
* `Describes.of_leaf`, `Describes.of_nested` — what a list starts with if it describes an outline.
-/

set_option autoImplicit false

namespace ResourceDelta

namespace FieldDefinition

/-- The members below a field: those that it lists, or those of the shape that it names. -/
def membersIn (shapes : ShapeTable) : FieldDefinition → List FieldDefinition
  | .leaf _ _ => []
  | .nested _ _ listed none => listed
  | .nested _ _ _ (some shape) => (shapes.find? shape).getD []

/-- What the members below a field are members of. -/
def nesting? : FieldDefinition → Option Nesting
  | .leaf _ _ => none
  | .nested _ nesting _ _ => some nesting

end FieldDefinition

/-- A path leads from the members listed in a scope to the definition of a field: to one of the
members, or further to one of those below it. -/
inductive LeadsTo (shapes : ShapeTable) :
    Scope → List FieldDefinition → FieldPath → FieldDefinition → Prop
  | member {scope : Scope} {listed : List FieldDefinition} {d : FieldDefinition} {n : FieldName}
      (mem : d ∈ listed) (named : d.name = n.text) :
      LeadsTo shapes scope listed (scope.extend n) d
  | further {scope : Scope} {listed : List FieldDefinition} {d target : FieldDefinition}
      {n : FieldName} {nesting : Nesting} {path : FieldPath} (mem : d ∈ listed)
      (named : d.name = n.text) (nests : d.nesting? = some nesting)
      (rest : LeadsTo shapes (nesting.scope (scope.extend n)) (d.membersIn shapes) path target) :
      LeadsTo shapes scope listed path target

/-- What a path leads to among some members it leads to among more. -/
theorem LeadsTo.cons {shapes : ShapeTable} {scope : Scope} {d target : FieldDefinition}
    {listed : List FieldDefinition} {path : FieldPath}
    (h : LeadsTo shapes scope listed path target) :
    LeadsTo shapes scope (d :: listed) path target := by
  cases h with
  | member mem named => exact .member (List.mem_cons_of_mem d mem) named
  | further mem named nests rest => exact .further (List.mem_cons_of_mem d mem) named nests rest

/-! ## Described definitions -/

/-- A list that describes an outline starting with a field that nests others starts with a
definition whose members describe what the field nests. -/
theorem Describes.of_nested {shapes : ShapeTable} {definitions : List FieldDefinition}
    {name : FieldName} {nesting : Nesting} {members rest : Outline}
    (h : Describes shapes definitions (.nested name nesting members rest)) :
    ∃ d ds, definitions = d :: ds ∧ d.name = name.text ∧ d.kind = nesting.kind ∧
      d.nesting? = some nesting ∧ Describes shapes (d.membersIn shapes) members ∧
      Describes shapes ds rest := by
  cases h with
  | inPlace isName nonempty below tail => exact ⟨_, _, rfl, rfl, rfl, rfl, below, tail⟩
  | byShape isName found nonempty below tail =>
    refine ⟨_, _, rfl, rfl, rfl, rfl, ?_, tail⟩
    simp only [FieldDefinition.membersIn, found]
    exact below

theorem Describes.of_leaf {shapes : ShapeTable} {definitions : List FieldDefinition}
    {name : FieldName} {type : LeafType} {rest : Outline}
    (h : Describes shapes definitions (.leaf name type rest)) :
    ∃ ds, definitions = .leaf name.text type :: ds ∧ Describes shapes ds rest := by
  cases h with
  | leaf isName tail => exact ⟨_, rfl, tail⟩

end ResourceDelta
