import ResourceDelta.Proofs.Resource.Overriding

/-!
# Resources answer as their overrides do

Whether a path is ignored or secret can be asked of the lists of a configuration, of each tree of a
resource, and of the resource.  The trees look for flagged fields above the path, and each may lack
some of the paths that are listed.

* `Outline.isIgnored_tree` — a tree ignores what is at or below a listed path that it has itself.
* `Resource.Follows` — a resource answers as overrides do, for every path.
* `Resource.build_applies_overrides` — what building a resource comes to, and that the resource
  follows its overrides.
-/

set_option autoImplicit false

namespace ResourceDelta

namespace Outline

variable {os : Outline} {o : Overrides} {p q : FieldPath}

theorem ignores_tree (hp : os.IsProper) :
    (os.tree o.flagsAt).ignores p = true ↔ p ∈ os.paths .top ∧ p ∈ o.ignore := by
  unfold FieldTree.ignores
  by_cases h : p ∈ os.paths .top
  · obtain ⟨f, hf, hflags⟩ : ∃ f, (os.tree o.flagsAt).resolve p = some f ∧
        f.flags = o.flagsAt p := exists_resolve_tree hp h
    rw [hf, Option.any_some, Field.isIgnored, hflags, Overrides.flagsAt_ignore, decide_eq_true_eq]
    simp only [h, true_and]
  · rw [resolve_tree_eq_none h]
    simp [h]

/-- A tree ignores what is at or below a listed path that it has itself. -/
theorem isIgnored_tree (hp : os.IsProper) :
    (os.tree o.flagsAt).isIgnored q = true ↔
      ∃ p ∈ o.ignore, p ∈ os.paths .top ∧ p.Covers q := by
  rw [FieldTree.isIgnored_iff]
  constructor
  · rintro ⟨p, hc, hi⟩
    obtain ⟨hmem, hignore⟩ := (ignores_tree hp).1 hi
    exact ⟨p, hignore, hmem, hc⟩
  · rintro ⟨p, hignore, hmem, hc⟩
    exact ⟨p, hc, (ignores_tree hp).2 ⟨hmem, hignore⟩⟩

/-- For a path that it has, a tree answers as the lists do: it has all paths above that one. -/
theorem isIgnored_tree_eq (hp : os.IsProper) (h : q ∈ os.paths .top) :
    (os.tree o.flagsAt).isIgnored q = o.isIgnored q := by
  rw [Bool.eq_iff_iff, isIgnored_tree hp, Overrides.isIgnored_iff]
  constructor
  · rintro ⟨p, hignore, -, hc⟩
    exact ⟨p, hignore, hc⟩
  · rintro ⟨p, hignore, hc⟩
    exact ⟨p, hignore, mem_paths_of_covers h hc, hc⟩

theorem exists_resolve_tree_isSecret (hp : os.IsProper) (h : q ∈ os.paths .top) :
    ∃ f, (os.tree o.flagsAt).resolve q = some f ∧ f.isSecret = o.isSecret q := by
  obtain ⟨f, hf, hflags⟩ : ∃ f, (os.tree o.flagsAt).resolve q = some f ∧
      f.flags = o.flagsAt q := exists_resolve_tree hp h
  refine ⟨f, hf, ?_⟩
  rw [Field.isSecret, hflags, Overrides.flagsAt_secret, Bool.eq_iff_iff, Overrides.isSecret_iff,
    decide_eq_true_eq]

end Outline

/-! ## Resources -/

namespace Resource

/-- A resource answers as overrides do. -/
structure Follows (r : Resource) (o : Overrides) : Prop where
  /-- What is said about a field is what the lists say about its path. -/
  flags_eq : ∀ f : Field, f ∈ r.spec.fields ∨ f ∈ r.status.fields → f.flags = o.flagsAt f.path
  /-- Whether a path is ignored, be it that of a field or not. -/
  isIgnored_eq : ∀ q, r.isIgnored q = o.isIgnored q
  /-- Whether a path is secret, be it that of a field or not. -/
  isSecret_eq : ∀ q, r.isSecret q = o.isSecret q
  /-- Each tree answers alike for the paths that it has. -/
  spec_isIgnored_eq : ∀ q, (r.spec.resolve q).isSome = true → r.spec.isIgnored q = o.isIgnored q
  status_isIgnored_eq :
    ∀ q, (r.status.resolve q).isSome = true → r.status.isIgnored q = o.isIgnored q

variable {os os' : Outline} {o : Overrides} {name : String} {flavor : Flavor}

/-- The lists' answer is that of either tree, as each listed path is in one of them. -/
theorem isIgnored_of_accepts (hp : os.IsProper) (hp' : os'.IsProper) (h : Accepts os os' o)
    (q : FieldPath) :
    isIgnored ⟨name, os.tree o.flagsAt, os'.tree o.flagsAt, flavor⟩ q = o.isIgnored q := by
  unfold isIgnored
  rw [Bool.eq_iff_iff, Bool.or_eq_true, Outline.isIgnored_tree hp, Outline.isIgnored_tree hp',
    Overrides.isIgnored_iff]
  constructor
  · rintro (⟨p, hignore, -, hc⟩ | ⟨p, hignore, -, hc⟩)
    · exact ⟨p, hignore, hc⟩
    · exact ⟨p, hignore, hc⟩
  · rintro ⟨p, hignore, hc⟩
    rcases h.1 p hignore with hmem | hmem
    · exact .inl ⟨p, hignore, hmem, hc⟩
    · exact .inr ⟨p, hignore, hmem, hc⟩

theorem isSecret_of_accepts (hp : os.IsProper) (hp' : os'.IsProper) (h : Accepts os os' o)
    (q : FieldPath) :
    isSecret ⟨name, os.tree o.flagsAt, os'.tree o.flagsAt, flavor⟩ q = o.isSecret q := by
  unfold isSecret resolve
  by_cases hs : q ∈ os.paths .top
  · obtain ⟨f, hf, hsecret⟩ := Outline.exists_resolve_tree_isSecret (o := o) hp hs
    simp only [hf, Option.some_or, Option.any_some, hsecret]
  · rw [Outline.resolve_tree_eq_none hs, Option.none_or]
    by_cases ht : q ∈ os'.paths .top
    · obtain ⟨f, hf, hsecret⟩ := Outline.exists_resolve_tree_isSecret (o := o) hp' ht
      simp only [hf, Option.any_some, hsecret]
    · have hno : o.isSecret q = false := by
        rw [← Bool.not_eq_true, Overrides.isSecret_iff]
        intro hmem
        rcases (h.2 q hmem).1 with hk | hk
        · exact hs hk
        · exact ht hk
      rw [Outline.resolve_tree_eq_none ht, hno]
      rfl

/-- A resource with accepted overrides follows them. -/
theorem follows_of_accepts (hp : os.IsProper) (hp' : os'.IsProper) (h : Accepts os os' o) :
    Follows ⟨name, os.tree o.flagsAt, os'.tree o.flagsAt, flavor⟩ o where
  flags_eq f hf := by
    rcases hf with hf | hf
    · exact Outline.flags_of_mem_fields (Outline.mem_tree_fields.1 hf)
    · exact Outline.flags_of_mem_fields (Outline.mem_tree_fields.1 hf)
  isIgnored_eq := isIgnored_of_accepts hp hp' h
  isSecret_eq := isSecret_of_accepts hp hp' h
  spec_isIgnored_eq q hq := Outline.isIgnored_tree_eq hp ((Outline.isSome_resolve_tree hp).1 hq)
  status_isIgnored_eq q hq := Outline.isIgnored_tree_eq hp' ((Outline.isSome_resolve_tree hp').1 hq)

/-- **Overrides are applied as the lists have it.**  Building a resource comes to the first defect
of Spec, Status and lists, or to the trees of the definition with what the lists say about their
fields; order and repetition in the lists do not matter for the trees; and the resource follows the
lists. -/
theorem build_applies_overrides (definition : ResourceDefinition) (o : Overrides)
    (flavor : Flavor) :
    build definition o flavor = outcome definition o flavor ∧
      (∀ (o' : Overrides) (resource : Resource), (∀ p, p ∈ o'.ignore ↔ p ∈ o.ignore) →
        (∀ p, p ∈ o'.secret ↔ p ∈ o.secret) → build definition o flavor = .ok resource →
          build definition o' flavor = .ok resource) ∧
      ∀ resource, build definition o flavor = .ok resource → resource.Follows o := by
  refine ⟨build_eq_outcome, fun o' resource hi hs h => ?_, fun resource h => ?_⟩
  · obtain ⟨os, os', hd, hd', haccepts, rfl⟩ := build_eq_ok_iff.1 h
    have hflags := Overrides.flagsAt_congr hi hs
    refine build_eq_ok_iff.2 ⟨os, os', hd, hd', ?_, by rw [hflags]⟩
    unfold Accepts at haccepts ⊢
    simp only [hi, hs]
    exact haccepts
  · obtain ⟨os, os', ⟨-, hp⟩, ⟨-, hp'⟩, haccepts, rfl⟩ := build_eq_ok_iff.1 h
    exact follows_of_accepts hp hp' haccepts

theorem build_applies_overrides_store : ∃ resource,
    build storeDefinition storeOverrides .ack = .ok resource ∧ resource.Follows storeOverrides ∧
      build storeDefinition ⟨storeOverrides.ignore.reverse, storeOverrides.secret⟩ .ack =
        .ok resource := by
  obtain ⟨resource, h⟩ := build_store
  obtain ⟨-, horder, hfollows⟩ := build_applies_overrides storeDefinition storeOverrides .ack
  refine ⟨resource, h, hfollows resource h, horder _ resource (fun p => ?_) (fun p => .rfl) h⟩
  exact List.mem_reverse

end Resource

end ResourceDelta
