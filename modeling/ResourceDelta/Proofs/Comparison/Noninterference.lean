import ResourceDelta.Proofs.Comparison.Selection
import ResourceDelta.Proofs.Comparison.Walk
import ResourceDelta.Proofs.Resource.Agreement

/-!
# What a comparison does not depend on

Of all that a resource holds, only the fields of its Spec matter to a comparison, and of what is
said about them only which fields outside of elements are ignored, by themselves or from above.

* `Outline.read_eq_of_clear` — two ways to ignore paths make one reading of an outline if the same
  paths of its fields are clear.
* `compareResource_noninterference` — two resources with one Spec have the same fragments if their
  trees ignore the same fields outside of elements.
-/

set_option autoImplicit false

namespace ResourceDelta

/-! ## Readings -/

section

variable {ignored ignored' : FieldPath → Bool}

/-- Below what is clear in two ways, what is clear alike is ignored alike. -/
theorem Scope.IsClear.ignored_eq {scope : Scope} {n : FieldName} (h : scope.IsClear ignored)
    (h' : scope.IsClear ignored')
    (hn : ResourceDelta.IsClear ignored (scope.extend n) ↔
      ResourceDelta.IsClear ignored' (scope.extend n)) :
    ignored (scope.extend n) = ignored' (scope.extend n) := by
  rw [h.extend_iff, h'.extend_iff] at hn
  cases hi : ignored (scope.extend n) with
  | true => simpa [hi] using hn
  | false => exact (hn.1 hi).symm

namespace Outline

variable {α : Type} {r : Reading α}

/-- What is below an ignored field and what is in elements is not read, so nothing needs to be known
of it. -/
theorem parts_eq_of_clear : ∀ {scope : Scope} {os : Outline},
    scope.IsClear ignored → scope.IsClear ignored' →
      (∀ p ∈ os.paths scope, IsClear ignored p ↔ IsClear ignored' p) →
        os.parts r ignored scope = os.parts r ignored' scope
  | _, .done, _, _, _ => rfl
  | scope, .leaf name type rest, hs, hs', h => by
    obtain ⟨hp, hr⟩ := List.forall_mem_cons.1 h
    simp only [parts, hs.ignored_eq hs' hp, parts_eq_of_clear hs hs' hr]
  | scope, .nested name nesting members rest, hs, hs', h => by
    obtain ⟨hp, h⟩ := List.forall_mem_cons.1 h
    obtain ⟨hm, hr⟩ := List.forall_mem_append.1 h
    have hown := hs.ignored_eq hs' hp
    simp only [parts, ← hown, parts_eq_of_clear hs hs' hr]
    cases hi : ignored (scope.extend name) with
    | true => rfl
    | false =>
      cases nesting with
      | struct =>
        have hclear : IsClear ignored (scope.extend name) := hs.extend_iff.2 hi
        have hm : members.parts r ignored (.struct (scope.extend name)) =
            members.parts r ignored' (.struct (scope.extend name)) :=
          parts_eq_of_clear hclear (hp.1 hclear) hm
        simp only [Nesting.scope, hm]
      | list => rfl
      | map => rfl

/-- **Two ways to ignore paths make one reading** if the same paths of fields are clear. -/
theorem read_eq_of_clear {os : Outline}
    (h : ∀ p ∈ os.paths .top, IsClear ignored p ↔ IsClear ignored' p) :
    os.read r ignored .top = os.read r ignored' .top := by
  have hparts : os.parts r ignored .top = os.parts r ignored' .top :=
    parts_eq_of_clear trivial trivial h
  unfold read
  rw [hparts]

end Outline

end

/-! ## Resources -/

/-- Resources whose Specs have one outline have the same fragments if the same of its paths outside
of elements are ignored. -/
theorem Resource.sameFragments_of_isIgnored_eq {r r' : Resource} {os : Outline}
    (h : r.spec.Outlines os) (h' : r'.spec.Outlines os)
    (hagree : ∀ p ∈ os.paths .top, p.hasWildcard = false →
      r.spec.isIgnored p = r'.spec.isIgnored p) : r.SameFragments r' := by
  refine sameFragments_of_read_eq h h' (Outline.read_eq_of_clear fun p hp => ?_)
  rw [FieldTree.isClear_ignores_iff, FieldTree.isClear_ignores_iff]
  exact and_congr_right fun hw => by rw [hagree p hp hw]

/-- Overrides that list the same paths outside of elements ignore the same of these, as no path
above them is in elements. -/
theorem Outline.isIgnored_tree_congr {os : Outline} {o o' : Overrides} (hp : os.IsProper)
    (h : ∀ p ∈ os.paths .top, p.hasWildcard = false → (p ∈ o.ignore ↔ p ∈ o'.ignore))
    {q : FieldPath} (hq : q.hasWildcard = false) :
    (os.tree o.flagsAt).isIgnored q = (os.tree o'.flagsAt).isIgnored q := by
  rw [Bool.eq_iff_iff, isIgnored_tree hp, isIgnored_tree hp]
  have hlisted : ∀ p : FieldPath, p ∈ os.paths .top → p.Covers q →
      (p ∈ o.ignore ↔ p ∈ o'.ignore) := by
    intro p hmem hc
    refine h p hmem (Bool.eq_false_iff.2 fun hw => ?_)
    rw [hc.hasWildcard hw] at hq
    cases hq
  constructor
  · rintro ⟨p, hi, hmem, hc⟩
    exact ⟨p, (hlisted p hmem hc).1 hi, hmem, hc⟩
  · rintro ⟨p, hi, hmem, hc⟩
    exact ⟨p, (hlisted p hmem hc).2 hi, hmem, hc⟩

/-- **A comparison depends only on the Spec and on which of its fields outside of elements are
ignored.**  The names, the Statuses, the flavors and the secret fields of two resources may differ,
and so may the ignored paths in elements, in the Status, and below other ignored fields. -/
theorem compareResource_noninterference {left right : ResourceDefinition} {o o' : Overrides}
    {flavor flavor' : Flavor} {r r' : Resource} (h : Resource.build left o flavor = .ok r)
    (h' : Resource.build right o' flavor' = .ok r') (hspec : right.spec = left.spec)
    (hshapes : right.shapes = left.shapes) :
    ((∀ f ∈ r.spec.fields, f.path.hasWildcard = false →
        r.spec.isIgnored f.path = r'.spec.isIgnored f.path) → r.SameFragments r') ∧
      ((∀ f ∈ r.spec.fields, f.path.hasWildcard = false →
        (f.path ∈ o.ignore ↔ f.path ∈ o'.ignore)) → r.SameFragments r') := by
  obtain ⟨os, -, ⟨hd, hp⟩, -, -, rfl⟩ := Resource.build_eq_ok_iff.1 h
  obtain ⟨os', -, ⟨hd', -⟩, -, -, rfl⟩ := Resource.build_eq_ok_iff.1 h'
  rw [hspec, hshapes] at hd'
  obtain rfl := hd'.unique hd
  constructor
  · intro hagree
    exact Resource.sameFragments_of_isIgnored_eq (Outline.tree_outlines hp)
      (Outline.tree_outlines hp) (Outline.forall_mem_tree_fields.1 hagree)
  · intro hlisted
    exact Resource.sameFragments_of_isIgnored_eq (Outline.tree_outlines hp)
      (Outline.tree_outlines hp) fun p _ hw =>
        Outline.isIgnored_tree_congr hp (Outline.forall_mem_tree_fields.1 hlisted) hw

/-- The sample with another name and Status. -/
def depotDefinition : ResourceDefinition :=
  { storeDefinition with name := "Depot", status := [.scalar "id" .integer, .bytes "digest"] }

/-- The paths with the given texts. -/
def pathsOf (texts : List String) : List FieldPath :=
  texts.filterMap fun text => (FieldPath.parse text).toOption

/-- Nothing of the second endpoint is compared, and an address is secret. -/
def depotOverrides : Overrides :=
  ⟨pathsOf ["backup"], pathsOf ["main.address"]⟩

/-- The same with entries below the ignored endpoint, in elements, and in the Status, and with no
secrets. -/
def redundantOverrides : Overrides :=
  ⟨pathsOf ["backup.labels", "backup", "rules..id", "digest"], []⟩

/-- The two resources have the same fragments, by the fields that their trees ignore. -/
theorem compareResource_noninterference_store : ∃ r r',
    Resource.build storeDefinition depotOverrides .ack = .ok r ∧
    Resource.build depotDefinition redundantOverrides .crossplane = .ok r' ∧
    r.SameFragments r' := by
  have hsame : (Resource.build storeDefinition depotOverrides .ack).toOption.any (fun r =>
      (Resource.build depotDefinition redundantOverrides .crossplane).toOption.any fun r' =>
        r.spec.fields.all fun f => f.path.hasWildcard ||
          r.spec.isIgnored f.path == r'.spec.isIgnored f.path) = true := by cbv
  cases h : Resource.build storeDefinition depotOverrides .ack with
  | error e =>
    rw [h] at hsame
    cases hsame
  | ok r =>
    cases h' : Resource.build depotDefinition redundantOverrides .crossplane with
    | error e =>
      rw [h, h'] at hsame
      cases hsame
    | ok r' =>
      refine ⟨r, r', rfl, rfl, (compareResource_noninterference h h' rfl rfl).1 fun f hf hw => ?_⟩
      rw [h, h'] at hsame
      have hfield := Array.all_eq_true'.1 hsame f hf
      simpa [hw] using hfield

end ResourceDelta
