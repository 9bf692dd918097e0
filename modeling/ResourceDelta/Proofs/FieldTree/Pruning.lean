import ResourceDelta.Proofs.FieldTree.Indexed
import ResourceDelta.Proofs.Schema.Expansion

/-!
# Deleting fields from definitions

A field is deleted with all below it.  This may leave structs without members, which cannot be
defined, so they are deleted as well, those within others first.

* `removeFields` — definitions without the fields that have one of some paths.
* `removeEmptied` — definitions without structs of which nothing is left.
* `Outline.prune` — an outline without the fields that either leaves out.
* `Outline.definitions_prune` — written down, it is what both leave of the outline written down.
* `Outline.IsProper.prune` — it is proper: fields below elements are not deleted, so only structs
  can lose their members.
-/

set_option autoImplicit false

namespace ResourceDelta

/-! ## Definitions -/

/-- Whether a field with that path is deleted: only those are whose path enters no elements. -/
def isDeleted (paths : List FieldPath) (path : FieldPath) : Bool :=
  !path.hasWildcard && path ∈ paths

mutual

/-- What is left of the definition of a field in a scope, if it is not itself deleted. -/
def removeFrom (paths : List FieldPath) (scope : Scope) : FieldDefinition → List FieldDefinition
  | .leaf name type =>
    match scope.path name with
    | .ok path => if isDeleted paths path then [] else [.leaf name type]
    | .error _ => [.leaf name type]
  | .nested name nesting members shape =>
    match scope.path name with
    | .ok path =>
      if isDeleted paths path then []
      else [.nested name nesting (removeFields paths (nesting.scope path) members) shape]
    | .error _ => [.nested name nesting members shape]

/-- The definitions in a scope without the deleted fields and all below them. -/
def removeFields (paths : List FieldPath) (scope : Scope) :
    List FieldDefinition → List FieldDefinition
  | [] => []
  | d :: ds => removeFrom paths scope d ++ removeFields paths scope ds

end

mutual

/-- What is left of the definition of a field once emptied structs are gone. -/
def removeEmptiedFrom : FieldDefinition → List FieldDefinition
  | .leaf name type => [.leaf name type]
  | .nested name nesting members shape =>
    let members := removeEmptied members
    if nesting = .struct ∧ members.isEmpty ∧ shape.isNone then []
    else [.nested name nesting members shape]

/-- The definitions without structs that have no members left and name no shape, innermost
first. -/
def removeEmptied : List FieldDefinition → List FieldDefinition
  | [] => []
  | d :: ds => removeEmptiedFrom d ++ removeEmptied ds

end

theorem removeEmptied_append (ds ds' : List FieldDefinition) :
    removeEmptied (ds ++ ds') = removeEmptied ds ++ removeEmptied ds' := by
  induction ds with
  | nil => rfl
  | cons d ds ih =>
    rw [List.cons_append, removeEmptied, removeEmptied, ih, List.append_assoc]

/-! ## Scopes -/

namespace Scope

/-- Whether the members are those of elements, or below some. -/
def hasWildcard : Scope → Bool
  | .top => false
  | .struct path => path.hasWildcard
  | .elements _ => true

theorem hasWildcard_extend (scope : Scope) (n : FieldName) :
    (scope.extend n).hasWildcard = scope.hasWildcard := by
  cases scope with
  | top => exact FieldPath.hasWildcard_root n
  | struct path =>
    show (path.extend (.member n)).hasWildcard = _
    rw [FieldPath.hasWildcard_extend, Step.entersElements, Bool.or_false]
    rfl
  | elements path =>
    show (path.extend (.elementMember n)).hasWildcard = _
    rw [FieldPath.hasWildcard_extend, Step.entersElements, Bool.or_true]
    rfl

theorem path_text (scope : Scope) (n : FieldName) : scope.path n.text = .ok (scope.extend n) :=
  Scope.path_eq_ok_iff.2 ⟨n.isName, rfl⟩

end Scope

/-! ## Outlines -/

namespace Outline

/-- What is left of an outline in a scope: deleted fields are left out with all below them, and so
are structs of which nothing is left. -/
def prune (paths : List FieldPath) : Scope → Outline → Outline
  | _, .done => .done
  | scope, .leaf name type rest =>
    if isDeleted paths (scope.extend name) then rest.prune paths scope
    else .leaf name type (rest.prune paths scope)
  | scope, .nested name nesting members rest =>
    let path := scope.extend name
    let below := members.prune paths (nesting.scope path)
    if isDeleted paths path ∨ (nesting = .struct ∧ below = .done) then rest.prune paths scope
    else .nested name nesting below (rest.prune paths scope)

variable {paths : List FieldPath}

theorem isEmpty_definitions_iff {os : Outline} :
    os.definitions.isEmpty = true ↔ os = .done := by
  cases os <;> simp [definitions]

/-- **Written down, a pruned outline is what both deletions leave of the outline written down.** -/
theorem definitions_prune : ∀ (scope : Scope) (os : Outline),
    removeEmptied (removeFields paths scope os.definitions) = (os.prune paths scope).definitions
  | _, .done => rfl
  | scope, .leaf name type rest => by
    have ih := definitions_prune scope rest
    simp only [definitions, removeFields, removeFrom, scope.path_text, prune]
    rw [removeEmptied_append, ih]
    split
    · rfl
    · rfl
  | scope, .nested name nesting members rest => by
    have ihm := definitions_prune (nesting.scope (scope.extend name)) members
    have ihr := definitions_prune scope rest
    simp only [definitions, removeFields, removeFrom, scope.path_text, prune]
    rw [removeEmptied_append, ihr]
    by_cases hd : isDeleted paths (scope.extend name) = true
    · rw [if_pos hd, if_pos (.inl hd)]
      rfl
    · rw [if_neg hd]
      simp only [removeEmptied, removeEmptiedFrom, ihm, isEmpty_definitions_iff, hd,
        Bool.false_eq_true, false_or, Option.isNone_none, and_true]
      split
      · rfl
      · rfl

/-- Nothing is deleted below elements. -/
theorem prune_eq_self : ∀ {scope : Scope} {os : Outline}, scope.hasWildcard = true →
    os.IsProper → os.prune paths scope = os
  | _, .done, _, _ => rfl
  | scope, .leaf name type rest, hs, hp => by
    have hd : isDeleted paths (scope.extend name) = false := by
      unfold isDeleted
      rw [scope.hasWildcard_extend, hs]
      rfl
    rw [prune, hd, prune_eq_self hs hp.2]
    rfl
  | scope, .nested name nesting members rest, hs, hp => by
    have hd : isDeleted paths (scope.extend name) = false := by
      unfold isDeleted
      rw [scope.hasWildcard_extend, hs]
      rfl
    have hm : (nesting.scope (scope.extend name)).hasWildcard = true := by
      cases nesting with
      | struct => rw [← hs]; exact scope.hasWildcard_extend name
      | list => rfl
      | map => rfl
    simp only [prune]
    rw [prune_eq_self hm hp.2.2.1, prune_eq_self hs hp.2.2.2, hd, if_neg]
    rintro (h | ⟨-, h⟩)
    · cases h
    · exact hp.2.1 h

theorem mem_names_of_prune : ∀ {scope : Scope} {os : Outline} {n : FieldName},
    n ∈ (os.prune paths scope).names → n ∈ os.names
  | scope, .leaf name type rest, n, h => by
    rw [prune] at h
    split at h
    · exact List.mem_cons_of_mem _ (mem_names_of_prune h)
    · rcases List.mem_cons.1 h with rfl | h
      · exact List.mem_cons_self
      · exact List.mem_cons_of_mem _ (mem_names_of_prune h)
  | scope, .nested name nesting members rest, n, h => by
    simp only [prune] at h
    split at h
    · exact List.mem_cons_of_mem _ (mem_names_of_prune h)
    · rcases List.mem_cons.1 h with rfl | h
      · exact List.mem_cons_self
      · exact List.mem_cons_of_mem _ (mem_names_of_prune h)

/-- **What is left of a proper outline is proper.** -/
theorem IsProper.prune : ∀ {scope : Scope} {os : Outline}, os.IsProper →
    (os.prune paths scope).IsProper
  | _, .done, _ => trivial
  | scope, .leaf name type rest, hp => by
    rw [Outline.prune]
    split
    · exact hp.2.prune
    · exact ⟨fun h => hp.1 (mem_names_of_prune h), hp.2.prune⟩
  | scope, .nested name nesting members rest, hp => by
    simp only [Outline.prune]
    split
    · exact hp.2.2.2.prune
    · rename_i hkept
      refine ⟨fun h => hp.1 (mem_names_of_prune h), fun hdone => hkept (.inr ⟨?_, hdone⟩),
        hp.2.2.1.prune, hp.2.2.2.prune⟩
      -- the members of elements are all kept, so it is a struct that has lost them
      cases nesting with
      | struct => rfl
      | list =>
        rw [prune_eq_self rfl hp.2.2.1] at hdone
        exact absurd hdone hp.2.1
      | map =>
        rw [prune_eq_self rfl hp.2.2.1] at hdone
        exact absurd hdone hp.2.1

end Outline

end ResourceDelta
