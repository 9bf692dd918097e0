import ResourceDelta.Proofs.Comparison.Walk
import ResourceDelta.Proofs.FieldTree.Pruning
import ResourceDelta.Proofs.Resource.Agreement

/-!
# Ignoring a field is deleting it

A comparison leaves ignored fields out while it walks over a tree.  The same fragment comes out when
these fields are deleted from the definition and nothing is ignored.

* `Outline.read_prune` — what is left of an outline is read as the outline is, with the deleted
  fields ignored.
* `compareResource_deleted` — so are the fragments for a resource those for its definition without
  the ignored fields.
-/

set_option autoImplicit false

namespace ResourceDelta

/-! ## Reading what is left -/

namespace Outline

variable {α : Type} {r : Reading α} {paths : List FieldPath} {os : Outline}

/-- Where no elements are entered, the fields with one of the paths are deleted. -/
theorem isDeleted_extend {scope : Scope} (hs : scope.hasWildcard = false) (n : FieldName) :
    isDeleted paths (scope.extend n) = decide (scope.extend n ∈ paths) := by
  unfold isDeleted
  rw [scope.hasWildcard_extend, hs]
  rfl

/-- Of a field that nests others, nothing is made exactly if it is left out, and else what is left
of it is read as it is, provided that this holds of the members of a struct. -/
theorem nested_prune (hr : r.IsFaithful) {nesting : Nesting} (path : FieldPath) {members : Outline}
    (hp : members.IsProper)
    (hm : nesting = .struct →
      (members.prune paths (nesting.scope path)).parts r (fun _ => false) (nesting.scope path) =
        (members.parts r (fun p => p ∈ paths) (nesting.scope path)).filter
          fun part => !part.2.isEmpty) :
    (nesting = .struct ∧ members.prune paths (nesting.scope path) = .done ↔
        r.nested nesting path
          (joinByName (members.parts r (fun p => p ∈ paths) (nesting.scope path))) = []) ∧
      r.nested nesting path (joinByName
          ((members.prune paths (nesting.scope path)).parts r (fun _ => false)
            (nesting.scope path))) =
        r.nested nesting path
          (joinByName (members.parts r (fun p => p ∈ paths) (nesting.scope path))) := by
  cases nesting with
  | struct =>
    simp only [true_and, Reading.nested]
    rw [hr.struct_eq_nil_iff, joinByName_eq_nil_iff, ← hm rfl, parts_eq_nil_iff, hm rfl,
      joinByName_filter hp.parts_names_nodup]
    exact ⟨.rfl, rfl⟩
  | list =>
    refine ⟨?_, rfl⟩
    simp [Reading.nested, hr.whole_ne_nil]
  | map =>
    refine ⟨?_, rfl⟩
    simp [Reading.nested, hr.whole_ne_nil]

/-- The parts of what is left are those of the outline of which something is made. -/
theorem parts_prune (hr : r.IsFaithful) : ∀ {scope : Scope} {os : Outline},
    scope.hasWildcard = false → os.IsProper →
      (os.prune paths scope).parts r (fun _ => false) scope =
        (os.parts r (fun p => p ∈ paths) scope).filter fun part => !part.2.isEmpty
  | _, .done, _, _ => rfl
  | scope, .leaf name type rest, hs, hp => by
    have ih := parts_prune hr hs hp.2
    have hne : (r.whole (scope.extend name) type.kind).isEmpty = false :=
      List.isEmpty_eq_false_iff.2 (hr.whole_ne_nil _ type.kind_ne)
    rw [prune, isDeleted_extend hs]
    by_cases hd : scope.extend name ∈ paths
    · simp only [hd, decide_true, if_true, parts, ih]
      rfl
    · simp only [hd, decide_false, Bool.false_eq_true, if_false, parts, ih, List.filter_cons, hne]
      rfl
  | scope, .nested name nesting members rest, hs, hp => by
    have ih := parts_prune hr hs hp.2.2.2
    have hm : nesting = .struct → (nesting.scope (scope.extend name)).hasWildcard = false := by
      rintro rfl
      rw [← hs]
      exact scope.hasWildcard_extend name
    -- members of elements are not read, so the hypothesis is needed below structs only
    obtain ⟨hnil, hsame⟩ := nested_prune hr (scope.extend name) hp.2.2.1
      fun h => parts_prune hr (hm h) hp.2.2.1
    simp only [prune, isDeleted_extend hs, hnil]
    by_cases hd : scope.extend name ∈ paths
    · simp only [hd, decide_true, true_or, if_true, parts, ih]
      rfl
    · simp only [hd, decide_false, Bool.false_eq_true, false_or, parts, if_false, List.filter_cons]
      split
      · rename_i hempty
        simp [hempty, ih]
      · rename_i hkept
        have hne := List.isEmpty_eq_false_iff.2 hkept
        simp only [parts, hsame, ih, hne, Bool.false_eq_true, if_false]
        rfl

/-- **What is left of an outline is read as the outline is**, with the deleted fields ignored. -/
theorem read_prune (hr : r.IsFaithful) {os : Outline} (hp : os.IsProper) :
    (os.prune paths .top).read r (fun _ => false) .top =
      os.read r (fun p => p ∈ paths) .top := by
  unfold read
  rw [parts_prune hr rfl hp, joinByName_filter hp.parts_names_nodup]

/-- Only the ignored paths that fields have matter for what is read. -/
theorem read_ignores (hp : os.IsProper) (o : Overrides) :
    os.read r (os.tree o.flagsAt).ignores .top = os.read r (fun p => p ∈ o.ignore) .top := by
  unfold read
  rw [parts_congr]
  intro p hmem
  rw [Bool.eq_iff_iff, ignores_tree hp, decide_eq_true_eq]
  simp only [hmem, true_and]

end Outline

/-! ## The main result -/

/-- The definition of a resource that has some fields in its Spec and no Status and shapes. -/
def ResourceDefinition.ofSpec (name : String) (spec : List FieldDefinition) : ResourceDefinition :=
  ⟨name, spec, [], .empty⟩

/-- **Ignoring fields is deleting them.**  Shapes can be replaced by their members throughout a
Spec, in one way; and without the ignored fields, and the structs that this empties, it still is
that of a resource, with the same fragments. -/
theorem compareResource_deleted {definition : ResourceDefinition} {overrides : Overrides}
    {flavor : Flavor} {resource : Resource}
    (h : Resource.build definition overrides flavor = .ok resource) :
    (∃ expanded, Expands definition.shapes definition.spec expanded) ∧
      ∀ expanded, Expands definition.shapes definition.spec expanded →
        ∀ (name : String) (flavor' : Flavor), ∃ left,
          Resource.build
            (.ofSpec name (removeEmptied (removeFields overrides.ignore .top expanded)))
            .none flavor' = .ok left ∧
          ∀ (target : Flavor) (operands : Operands) (indent : Nat), ∃ fragment,
            compareResource target resource operands indent = .ok fragment ∧
              compareResource target left operands indent = .ok fragment := by
  obtain ⟨os, os', ⟨hd, hp⟩, -, -, rfl⟩ := Resource.build_eq_ok_iff.1 h
  refine ⟨⟨_, hd.expands⟩, fun expanded hexpanded name flavor' => ?_⟩
  rw [hexpanded.unique hd.expands, Outline.definitions_prune]
  have hpruned : (os.prune overrides.ignore .top).IsProper := hp.prune
  have hbuild : Resource.build (.ofSpec name (os.prune overrides.ignore .top).definitions) .none
      flavor' = .ok _ :=
    Resource.build_eq_ok_iff.2 ⟨_, .done, ⟨hpruned.describes, hpruned⟩, ⟨.done, trivial⟩,
      ⟨fun p hp => absurd hp List.not_mem_nil, fun p hp => absurd hp List.not_mem_nil⟩, rfl⟩
  refine ⟨_, hbuild, fun target operands indent =>
    ⟨_, compareResource_eq (Outline.tree_outlines hp) target operands indent, ?_⟩⟩
  have hnone : (fun p => decide (p ∈ Overrides.none.ignore)) = fun _ => false := by
    funext p
    simp [Overrides.none]
  rw [compareResource_eq (Outline.tree_outlines hpruned), Outline.read_ignores hpruned,
    Outline.read_ignores hp, hnone, Outline.read_prune Reading.statements_isFaithful hp]

/-- The Spec of the sample with the members of its endpoints in place. -/
def storeInPlace : List FieldDefinition :=
  [.scalar "name" .string,
    .struct "main"
      [.mapOfStrings "labels", .struct "limits" [.scalar "rate" .integer], .bytes "address"],
    .struct "backup"
      [.mapOfStrings "labels", .struct "limits" [.scalar "rate" .integer], .bytes "address"],
    .listOfStruct "rules" [.scalar "id" .string]]

/-- What is left of it: the limits of the second endpoint are gone with the only rate in them. -/
def storeLeft : List FieldDefinition :=
  [.scalar "name" .string,
    .struct "main"
      [.mapOfStrings "labels", .struct "limits" [.scalar "rate" .integer], .bytes "address"],
    .struct "backup" [.bytes "address"],
    .listOfStruct "rules" [.scalar "id" .string]]

theorem storeDefinition_expands :
    Expands storeDefinition.shapes storeDefinition.spec storeInPlace := by
  have hendpoint : Expands storeDefinition.shapes
      [.mapOfStrings "labels", .struct "limits" [.scalar "rate" .integer], .bytes "address"]
      [.mapOfStrings "labels", .struct "limits" [.scalar "rate" .integer], .bytes "address"] :=
    .leaf (.inPlace (.leaf .done) (.leaf .done))
  have hfound : storeDefinition.shapes.find? "Endpoint" = some
      [.mapOfStrings "labels", .struct "limits" [.scalar "rate" .integer], .bytes "address"] := by
    cbv
  exact .leaf (.byShape hfound hendpoint (.byShape hfound hendpoint
    (.inPlace (.leaf .done) .done)))

theorem compareResource_deleted_store : ∃ resource left,
    Resource.build storeDefinition storeOverrides .ack = .ok resource ∧
    Resource.build (.ofSpec "Left" storeLeft) .none .crossplane = .ok left ∧
    ∃ fragment, compareResource .ack resource .standard 1 = .ok fragment ∧
      compareResource .ack left .standard 1 = .ok fragment := by
  obtain ⟨resource, h⟩ := build_store
  obtain ⟨left, hleft, hsame⟩ := (compareResource_deleted h).2 storeInPlace
    storeDefinition_expands "Left" .crossplane
  have hremoved : removeEmptied (removeFields storeOverrides.ignore .top storeInPlace) =
      storeLeft := by cbv
  rw [hremoved] at hleft
  exact ⟨resource, left, h, hleft, hsame .ack .standard 1⟩

end ResourceDelta
