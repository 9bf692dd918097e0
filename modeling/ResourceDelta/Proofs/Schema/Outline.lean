import Mathlib.Data.List.Nodup
import ResourceDelta.Proofs.FieldPath.Covering
import ResourceDelta.Schema.Definition

/-!
# Outlines of definitions

An outline is what a list of definitions describes once every named shape is replaced by its
members: a finite list of fields, each leaf with its type and every other field with the outline of
its members.

* `Outline.IsProper` — siblings have different names, and nothing is nested without members.
* `Describes` — a list of definitions, read under a table of shapes, describes an outline.
* `Describes.unique` — it describes one outline at most.
* `Describes.below_of_mem` — what is nested in a described list is described by a smaller outline.
-/

set_option autoImplicit false

namespace ResourceDelta

/-- The fields of one list of members, with all that is below them. -/
inductive Outline where
  /-- No more fields. -/
  | done
  /-- A field without members, then further fields. -/
  | leaf (name : FieldName) (type : LeafType) (rest : Outline)
  /-- A field with members below it, then further fields. -/
  | nested (name : FieldName) (nesting : Nesting) (members rest : Outline)
  deriving DecidableEq, Repr

namespace Outline

/-- The names of the fields, without those below them. -/
def names : Outline → List FieldName
  | .done => []
  | .leaf name _ rest => name :: rest.names
  | .nested name _ _ rest => name :: rest.names

/-- The number of fields, with all that are below them. -/
def size : Outline → Nat
  | .done => 0
  | .leaf _ _ rest => 1 + rest.size
  | .nested _ _ members rest => 1 + members.size + rest.size

/-- Siblings have different names, and every field that nests others has some. -/
def IsProper : Outline → Prop
  | .done => True
  | .leaf name _ rest => name ∉ rest.names ∧ rest.IsProper
  | .nested name _ members rest =>
    name ∉ rest.names ∧ members ≠ .done ∧ members.IsProper ∧ rest.IsProper

theorem IsProper.names_nodup : ∀ {os : Outline}, os.IsProper → os.names.Nodup
  | .done, _ => List.nodup_nil
  | .leaf _ _ _, h => List.nodup_cons.2 ⟨h.1, h.2.names_nodup⟩
  | .nested _ _ _ _, h => List.nodup_cons.2 ⟨h.1, h.2.2.2.names_nodup⟩

end Outline

/-- `listed` is a list of members below a field: the one in its definition, or that of the shape it
names. -/
inductive Nests (shapes : ShapeTable) : FieldDefinition → List FieldDefinition → Prop
  | inPlace {name : String} {nesting : Nesting} {listed : List FieldDefinition}
      {shape : Option String} : Nests shapes (.nested name nesting listed shape) listed
  | byShape {name shape : String} {nesting : Nesting} {own listed : List FieldDefinition}
      (found : shapes.find? shape = some listed) :
      Nests shapes (.nested name nesting own (some shape)) listed

/-- `definitions` describe the fields of an outline, named shapes being replaced by their members.
Nothing is said about names that occur twice. -/
inductive Describes (shapes : ShapeTable) : List FieldDefinition → Outline → Prop
  | done : Describes shapes [] .done
  | leaf {name : String} {type : LeafType} {definitions : List FieldDefinition} {rest : Outline}
      (isName : isFieldName name = true) (tail : Describes shapes definitions rest) :
      Describes shapes (.leaf name type :: definitions) (.leaf ⟨name, isName⟩ type rest)
  | inPlace {name : String} {nesting : Nesting} {listed definitions : List FieldDefinition}
      {members rest : Outline} (isName : isFieldName name = true) (nonempty : listed ≠ [])
      (below : Describes shapes listed members) (tail : Describes shapes definitions rest) :
      Describes shapes (.nested name nesting listed none :: definitions)
        (.nested ⟨name, isName⟩ nesting members rest)
  | byShape {name shape : String} {nesting : Nesting} {listed definitions : List FieldDefinition}
      {members rest : Outline} (isName : isFieldName name = true)
      (found : shapes.find? shape = some listed) (nonempty : listed ≠ [])
      (below : Describes shapes listed members) (tail : Describes shapes definitions rest) :
      Describes shapes (.nested name nesting [] (some shape) :: definitions)
        (.nested ⟨name, isName⟩ nesting members rest)

namespace Describes

variable {shapes : ShapeTable} {definitions : List FieldDefinition} {os : Outline}

/-- A list of definitions describes one outline at most. -/
theorem unique {os' : Outline} (h : Describes shapes definitions os)
    (h' : Describes shapes definitions os') : os = os' := by
  induction h generalizing os' with
  | done =>
    cases h'
    rfl
  | leaf _ _ ih =>
    cases h' with
    | leaf _ tail' => rw [ih tail']
  | inPlace _ _ _ _ ihb iht =>
    cases h' with
    | inPlace _ _ below' tail' => rw [ihb below', iht tail']
  | byShape _ found _ _ _ ihb iht =>
    cases h' with
    | byShape _ found' _ below' tail' =>
      rw [found] at found'
      cases found'
      rw [ihb below', iht tail']

theorem names_eq (h : Describes shapes definitions os) :
    definitions.map FieldDefinition.name = os.names.map FieldName.text := by
  induction h with
  | done => rfl
  | leaf _ _ ih => rw [List.map_cons, ih]; rfl
  | inPlace _ _ _ _ _ ih => rw [List.map_cons, ih]; rfl
  | byShape _ _ _ _ _ _ ih => rw [List.map_cons, ih]; rfl

theorem isFieldName_of_mem {d : FieldDefinition} (h : Describes shapes definitions os)
    (hd : d ∈ definitions) : isFieldName d.name = true := by
  have hname : d.name ∈ os.names.map FieldName.text := by
    rw [← h.names_eq]
    exact List.mem_map_of_mem hd
  obtain ⟨n, -, hn⟩ := List.mem_map.1 hname
  rw [← hn]
  exact n.isName

/-- Names that are pairwise distinct as texts are distinct as names. -/
theorem nodup_names_iff (h : Describes shapes definitions os) :
    (definitions.map FieldDefinition.name).Nodup ↔ os.names.Nodup := by
  rw [h.names_eq]
  exact List.nodup_map_iff fun _ _ he => FieldName.ext_text he

theorem ne_done (h : Describes shapes definitions os) (hne : definitions ≠ []) : os ≠ .done := by
  rintro rfl
  cases h
  exact hne rfl

/-- What a field of a described list nests is described by a smaller outline. -/
theorem below_of_mem {d : FieldDefinition} {listed : List FieldDefinition}
    (h : Describes shapes definitions os) (hd : d ∈ definitions) (hn : Nests shapes d listed) :
    ∃ members, Describes shapes listed members ∧ members.size < os.size ∧
      (os.IsProper → members.IsProper) := by
  induction h with
  | done => cases hd
  | leaf _ _ ih =>
    rcases List.mem_cons.1 hd with rfl | hd
    · cases hn
    · obtain ⟨ms, hm, hlt, hp⟩ := ih hd
      exact ⟨ms, hm, by simp only [Outline.size]; omega, fun h => hp h.2⟩
  | @inPlace _ _ _ _ members _ _ _ below _ _ ih =>
    rcases List.mem_cons.1 hd with rfl | hd
    · cases hn
      exact ⟨members, below, by simp only [Outline.size]; omega, fun h => h.2.2.1⟩
    · obtain ⟨ms, hm, hlt, hp⟩ := ih hd
      exact ⟨ms, hm, by simp only [Outline.size]; omega, fun h => hp h.2.2.2⟩
  | @byShape _ _ _ _ _ members _ _ found _ below _ _ ih =>
    rcases List.mem_cons.1 hd with rfl | hd
    · cases hn with
      | inPlace => exact ⟨.done, .done, by simp only [Outline.size]; omega, fun _ => trivial⟩
      | byShape found' =>
        rw [found] at found'
        cases found'
        exact ⟨members, below, by simp only [Outline.size]; omega, fun h => h.2.2.1⟩
    · obtain ⟨ms, hm, hlt, hp⟩ := ih hd
      exact ⟨ms, hm, by simp only [Outline.size]; omega, fun h => hp h.2.2.2⟩

/-- A field of a described list that nests others lists them or names a shape that has some. -/
theorem source_of_mem {name : String} {nesting : Nesting} {listed : List FieldDefinition}
    {shape : Option String} (h : Describes shapes definitions os)
    (hd : .nested name nesting listed shape ∈ definitions) :
    (shape = none ∧ listed ≠ []) ∨
      (listed = [] ∧ ∃ s ms, shape = some s ∧ shapes.find? s = some ms ∧ ms ≠ []) := by
  induction h with
  | done => cases hd
  | leaf _ _ ih =>
    rcases List.mem_cons.1 hd with hd | hd
    · cases hd
    · exact ih hd
  | inPlace _ nonempty _ _ _ ih =>
    rcases List.mem_cons.1 hd with hd | hd
    · cases hd
      exact .inl ⟨rfl, nonempty⟩
    · exact ih hd
  | byShape _ found nonempty _ _ _ ih =>
    rcases List.mem_cons.1 hd with hd | hd
    · cases hd
      exact .inr ⟨rfl, _, _, rfl, found, nonempty⟩
    · exact ih hd

end Describes

end ResourceDelta
