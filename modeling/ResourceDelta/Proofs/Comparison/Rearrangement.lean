import ResourceDelta.Proofs.Comparison.Walk
import ResourceDelta.Proofs.FieldTree.Lookup
import ResourceDelta.Proofs.Resource.Agreement
import ResourceDelta.Proofs.Schema.Rearrangement

/-!
# The order of definitions does not matter

The fields of a tree stand in the order of their definitions, and numbers link them.  What a tree is
asked for and what a comparison makes of it does not depend on this order.

* `Outline.Rearranged.kinds_perm` — rearranged outlines have the same fields.
* `Outline.Rearranged.read_eq` — they are read alike.
* `build_rearranged` — a definition and one with its members in another order make resources with
  the same fields and the same fragments.
-/

set_option autoImplicit false

namespace ResourceDelta

/-! ## Rearranged outlines -/

namespace Outline

/-- The paths and kinds of a field and of all below it. -/
def Item.kinds (scope : Scope) : Item → List (FieldPath × TypeKind)
  | .leaf name type => [(scope.extend name, type.kind)]
  | .nested name nesting members =>
    (scope.extend name, nesting.kind) :: members.kinds (nesting.scope (scope.extend name))

theorem kinds_before (scope : Scope) (a : Item) (rest : Outline) :
    (a.before rest).kinds scope = a.kinds scope ++ rest.kinds scope := by
  cases a <;> rfl

/-- What is made of a field that stands in a scope. -/
def Item.part {α : Type} (r : Reading α) (ignored : FieldPath → Bool) (scope : Scope) :
    Item → List α
  | .leaf name type =>
    if ignored (scope.extend name) then [] else r.whole (scope.extend name) type.kind
  | .nested name nesting members =>
    if ignored (scope.extend name) then []
    else r.nested nesting (scope.extend name)
      (members.read r ignored (nesting.scope (scope.extend name)))

theorem parts_before {α : Type} (r : Reading α) (ignored : FieldPath → Bool) (scope : Scope)
    (a : Item) (rest : Outline) : (a.before rest).parts r ignored scope =
      (a.name.text, a.part r ignored scope) :: rest.parts r ignored scope := by
  cases a <;> rfl

namespace Rearranged

variable {os os' : Outline}

/-- **Rearranged outlines have the same fields**, by path and kind. -/
theorem kinds_perm (h : os.Rearranged os') :
    ∀ scope : Scope, (os.kinds scope).Perm (os'.kinds scope) := by
  induction h with
  | done => exact fun _ => .nil
  | leaf _ ih => exact fun scope => (ih scope).cons _
  | nested _ _ ihb iht => exact fun scope => ((ihb _).append (iht scope)).cons _
  | swap =>
    intro scope
    simp only [kinds_before, ← List.append_assoc]
    exact List.perm_append_comm.append_right _
  | trans _ _ ih ih' => exact fun scope => (ih scope).trans (ih' scope)

theorem mem_paths_iff (h : os.Rearranged os') {p : FieldPath} :
    p ∈ os.paths .top ↔ p ∈ os'.paths .top := by
  rw [← map_fst_kinds, ← map_fst_kinds]
  exact ((h.kinds_perm .top).map Prod.fst).mem_iff

section

variable {α : Type} {r : Reading α} {ignored : FieldPath → Bool}

/-- The parts of rearranged outlines are the same: what is made of members is joined by name, so
what is made of each field does not depend on their order. -/
theorem parts_perm (h : os.Rearranged os') (hp : os.IsProper) :
    ∀ scope : Scope, (os.parts r ignored scope).Perm (os'.parts r ignored scope) := by
  induction h with
  | done => exact fun _ => .nil
  | leaf _ ih => exact fun scope => (ih hp.2 scope).cons _
  | @nested name nesting members members' _ _ _ _ ihb iht =>
    intro scope
    have hjoined : joinByName (members.parts r ignored (nesting.scope (scope.extend name))) =
        joinByName (members'.parts r ignored (nesting.scope (scope.extend name))) :=
      joinByName_perm (ihb hp.2.2.1 _) hp.2.2.1.parts_names_nodup
    simp only [parts, hjoined]
    exact (iht hp.2.2.2 scope).cons _
  | @swap a b rest =>
    intro scope
    simp only [parts_before]
    exact .swap _ _ _
  | trans first _ ih ih' => exact fun scope => (ih hp scope).trans (ih' (first.isProper hp) scope)

/-- **Rearranged outlines are read alike.** -/
theorem read_eq (h : os.Rearranged os') (hp : os.IsProper) (scope : Scope) :
    os.read r ignored scope = os'.read r ignored scope :=
  joinByName_perm (h.parts_perm hp scope) hp.parts_names_nodup

end

end Rearranged

end Outline

/-! ## Trees -/

/-- Two trees answer alike for every path; their fields may be numbered differently. -/
structure FieldTree.AnswersAlike (t t' : FieldTree) : Prop where
  resolve_eq : ∀ q, (t.resolve q).map (fun f => (f.path, f.kind, f.flags)) =
    (t'.resolve q).map fun f => (f.path, f.kind, f.flags)
  isIgnored_eq : ∀ q, t.isIgnored q = t'.isIgnored q

namespace Outline.Rearranged

variable {os os' : Outline} {o : Overrides}

theorem tree_answersAlike (h : os.Rearranged os') (hp : os.IsProper) :
    (os.tree o.flagsAt).AnswersAlike (os'.tree o.flagsAt) where
  resolve_eq q := by
    refine Option.ext fun (p, kind, own) => ?_
    rw [resolve_tree_eq_some_iff hp, resolve_tree_eq_some_iff (h.isProper hp),
      (h.kinds_perm .top).mem_iff]
  isIgnored_eq q := by
    rw [Bool.eq_iff_iff, isIgnored_tree hp, isIgnored_tree (h.isProper hp)]
    simp only [h.mem_paths_iff]

theorem ignores_tree_eq (h : os.Rearranged os') (hp : os.IsProper) :
    (os.tree o.flagsAt).ignores = (os'.tree o.flagsAt).ignores := by
  funext p
  rw [Bool.eq_iff_iff, ignores_tree hp, ignores_tree (h.isProper hp), h.mem_paths_iff]

end Outline.Rearranged

/-! ## Resources -/

/-- Two definitions have the same members in any order: in the Spec, the Status, the shapes, and all
lists below them. -/
structure ResourceDefinition.Rearranged (left right : ResourceDefinition) : Prop where
  spec : ResourceDelta.Rearranged left.spec right.spec
  status : ResourceDelta.Rearranged left.status right.status
  shapes : ShapeTable.Rearranged left.shapes right.shapes

theorem ResourceDefinition.Rearranged.symm {left right : ResourceDefinition}
    (h : left.Rearranged right) : right.Rearranged left :=
  ⟨h.spec.symm, h.status.symm, h.shapes.symm⟩

namespace Resource

/-- Two resources have the same fields, and the same fragments. -/
structure ComparesAlike (r r' : Resource) : Prop where
  spec : r.spec.AnswersAlike r'.spec
  status : r.status.AnswersAlike r'.status
  fragments : r.SameFragments r'

theorem accepts_of_rearranged {os os' status status' : Outline} {o : Overrides}
    (hs : os.Rearranged os') (ht : status.Rearranged status') (h : Accepts os status o) :
    Accepts os' status' o := by
  unfold Accepts at h ⊢
  simpa only [hs.mem_paths_iff, ht.mem_paths_iff] using h

theorem exists_build_rearranged {left right : ResourceDefinition} {o : Overrides} {flavor : Flavor}
    {r : Resource} (h : left.Rearranged right) (hr : build left o flavor = .ok r) :
    ∃ r', build right o flavor = .ok r' ∧ r.ComparesAlike r' := by
  obtain ⟨os, status, ⟨hd, hp⟩, ⟨hd', hp'⟩, haccepts, rfl⟩ := build_eq_ok_iff.1 hr
  obtain ⟨os', hos, hs⟩ := hd.rearranged_all h.shapes h.spec
  obtain ⟨status', hstatus, ht⟩ := hd'.rearranged_all h.shapes h.status
  refine ⟨_, build_eq_ok_iff.2 ⟨os', status', ⟨hos, hs.isProper hp⟩, ⟨hstatus, ht.isProper hp'⟩,
    accepts_of_rearranged hs ht haccepts, rfl⟩, hs.tree_answersAlike hp,
    ht.tree_answersAlike hp', ?_⟩
  refine sameFragments_of_read_eq (Outline.tree_outlines hp)
    (Outline.tree_outlines (hs.isProper hp)) ?_
  rw [hs.ignores_tree_eq hp, hs.read_eq hp]

end Resource

/-- **The order of definitions does not matter.**  A definition makes a resource exactly if one with
its members in another order does, and the two have the same fields and the same fragments. -/
theorem build_rearranged {left right : ResourceDefinition} (h : left.Rearranged right)
    (o : Overrides) (flavor : Flavor) :
    ((∃ r, Resource.build left o flavor = .ok r) ↔
        ∃ r, Resource.build right o flavor = .ok r) ∧
      ∀ r r', Resource.build left o flavor = .ok r → Resource.build right o flavor = .ok r' →
        r.ComparesAlike r' := by
  refine ⟨⟨?_, ?_⟩, ?_⟩
  · rintro ⟨r, hr⟩
    obtain ⟨r', hr', -⟩ := Resource.exists_build_rearranged h hr
    exact ⟨r', hr'⟩
  · rintro ⟨r, hr⟩
    obtain ⟨r', hr', -⟩ := Resource.exists_build_rearranged h.symm hr
    exact ⟨r', hr'⟩
  · intro r r' hr hr'
    obtain ⟨r'', hr'', halike⟩ := Resource.exists_build_rearranged h hr
    rw [hr'] at hr''
    cases hr''
    exact halike

/-- The sample with its fields and the members of endpoints the other way round. -/
def reversedStore : ResourceDefinition where
  name := "Store"
  spec := storeDefinition.spec.reverse
  status := storeDefinition.status.reverse
  shapes := .ofList
    [("Endpoint",
      [.bytes "address", .struct "limits" [.scalar "rate" .integer], .mapOfStrings "labels"])]

theorem storeDefinition_rearranged : storeDefinition.Rearranged reversedStore where
  spec := .of_perm (List.reverse_perm _).symm
  status := .of_perm (List.reverse_perm _).symm
  shapes := (ShapeTable.Rearranged.refl .empty).insert "Endpoint"
    (.of_perm (List.reverse_perm _).symm)

theorem build_rearranged_store : ∃ r r',
    Resource.build storeDefinition storeOverrides .ack = .ok r ∧
    Resource.build reversedStore storeOverrides .ack = .ok r' ∧ r.ComparesAlike r' := by
  obtain ⟨r, hr⟩ := build_store
  obtain ⟨hiff, halike⟩ := build_rearranged storeDefinition_rearranged storeOverrides .ack
  obtain ⟨r', hr'⟩ := hiff.1 ⟨r, hr⟩
  exact ⟨r, r', hr, hr', halike r r' hr hr'⟩

end ResourceDelta
