import ResourceDelta.Proofs.Schema.Outline

/-!
# Definitions without shapes

What a list of definitions describes can be written down again with all members listed in place.

* `Expands` — two lists differ in that every shape named in one is replaced by its members in the
  other.
* `Outline.definitions` — an outline, written down.
* `Describes.expands` — the definitions that describe an outline expand to it.
* `Outline.IsProper.describes` — a proper outline is described by what it is written down as, under
  every table of shapes.
-/

set_option autoImplicit false

namespace ResourceDelta

/-- `expanded` are the definitions with every shape that is named replaced by its members, in which
shapes are replaced likewise. -/
inductive Expands (shapes : ShapeTable) :
    (definitions expanded : List FieldDefinition) → Prop
  | done : Expands shapes [] []
  | leaf {name : String} {type : LeafType} {definitions expanded : List FieldDefinition}
      (tail : Expands shapes definitions expanded) :
      Expands shapes (.leaf name type :: definitions) (.leaf name type :: expanded)
  | inPlace {name : String} {nesting : Nesting}
      {listed members definitions expanded : List FieldDefinition}
      (below : Expands shapes listed members) (tail : Expands shapes definitions expanded) :
      Expands shapes (.nested name nesting listed none :: definitions)
        (.nested name nesting members none :: expanded)
  | byShape {name shape : String} {nesting : Nesting}
      {listed members definitions expanded : List FieldDefinition}
      (found : shapes.find? shape = some listed) (below : Expands shapes listed members)
      (tail : Expands shapes definitions expanded) :
      Expands shapes (.nested name nesting [] (some shape) :: definitions)
        (.nested name nesting members none :: expanded)

/-- A list of definitions expands to one list at most. -/
theorem Expands.unique {shapes : ShapeTable} {definitions expanded expanded' : List FieldDefinition}
    (h : Expands shapes definitions expanded) (h' : Expands shapes definitions expanded') :
    expanded = expanded' := by
  induction h generalizing expanded' with
  | done =>
    cases h'
    rfl
  | leaf _ ih =>
    cases h' with
    | leaf tail' => rw [ih tail']
  | inPlace _ _ ihb iht =>
    cases h' with
    | inPlace below' tail' => rw [ihb below', iht tail']
  | byShape found _ _ ihb iht =>
    cases h' with
    | byShape found' below' tail' =>
      rw [found] at found'
      cases found'
      rw [ihb below', iht tail']

namespace Outline

/-- An outline written down, all members in place. -/
def definitions : Outline → List FieldDefinition
  | .done => []
  | .leaf name type rest => .leaf name.text type :: rest.definitions
  | .nested name nesting members rest =>
    .nested name.text nesting members.definitions none :: rest.definitions

theorem definitions_ne_nil : ∀ {os : Outline}, os ≠ .done → os.definitions ≠ []
  | .done, h => absurd rfl h
  | .leaf .., _ => List.cons_ne_nil _ _
  | .nested .., _ => List.cons_ne_nil _ _

/-- A proper outline is described by what it is written down as. -/
theorem IsProper.describes {shapes : ShapeTable} :
    ∀ {os : Outline}, os.IsProper → Describes shapes os.definitions os
  | .done, _ => .done
  | .leaf name _ _, h => .leaf name.isName h.2.describes
  | .nested name _ _ _, h =>
    .inPlace name.isName (definitions_ne_nil h.2.1) h.2.2.1.describes h.2.2.2.describes

end Outline

/-- The definitions that describe an outline expand to it. -/
theorem Describes.expands {shapes : ShapeTable} {definitions : List FieldDefinition} {os : Outline}
    (h : Describes shapes definitions os) : Expands shapes definitions os.definitions := by
  induction h with
  | done => exact .done
  | leaf _ _ ih => exact .leaf ih
  | inPlace _ _ _ _ ihb iht => exact .inPlace ihb iht
  | byShape _ found _ _ _ ihb iht => exact .byShape found ihb iht

end ResourceDelta
