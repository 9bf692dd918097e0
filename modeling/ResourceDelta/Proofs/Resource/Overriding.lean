import Mathlib
import ResourceDelta.Proofs.FieldTree.Attaching
import ResourceDelta.Proofs.Resource.Outlined

/-!
# What overrides come to

The overrides of a resource are attached one after the other to two trees, of which either may lack
a path.  What comes of it depends on the lists alone.

* `Overrides.flagsAt` — what the lists say about the field with a given path.
* `Overrides.defect?` — the first defect of the listed paths.
* `attachToRoots_tree` — what attaching one override comes to.  From it `foldlM_ignored` and
  `foldlM_secret` follow the two lists, the state after some paths being that of a shorter list.
* `Resource.build_eq_outcome` — what building a resource comes to, errors included.
* `Resource.build_eq_ok_iff` — which resources are built, with the outlines of their trees.
* `Resource.build_outlines` — the trees of a resource are those of outlines.
-/

set_option autoImplicit false

namespace ResourceDelta

/-! ## What the lists say -/

namespace Overrides

/-- What the lists say about a path, if it is in one of them. -/
def flagsAt (o : Overrides) (path : FieldPath) : Option FieldFlags :=
  if path ∈ o.ignore ∨ path ∈ o.secret then some ⟨path ∈ o.ignore, path ∈ o.secret⟩
  else Option.none

/-- What is wrong with an ignored path. -/
def ignoredDefect? (known : FieldPath → Bool) (path : FieldPath) : Option Defect :=
  if known path then Option.none else some (.danglingOverride path)

/-- What is wrong with a secret path. -/
def secretDefect? (known : FieldPath → Bool) (o : Overrides) (path : FieldPath) : Option Defect :=
  if known path then
    if path ∈ o.ignore then some (.conflictingOverride path) else Option.none
  else some (.danglingOverride path)

/-- The first defect of the paths, the ignored ones before the secret ones: a path may lead to no
field, and a secret one may be ignored. -/
def defect? (known : FieldPath → Bool) (o : Overrides) : Option Defect :=
  (o.ignore.findSome? (ignoredDefect? known)).or (o.secret.findSome? (secretDefect? known o))

variable {known : FieldPath → Bool} {o o' : Overrides} {p : FieldPath}

theorem flagsAt_getD : (o.flagsAt p).getD .none = ⟨p ∈ o.ignore, p ∈ o.secret⟩ := by
  unfold flagsAt
  split
  · rfl
  · simp_all [FieldFlags.none]

theorem flagsAt_ignore : (o.flagsAt p).any FieldFlags.ignore = decide (p ∈ o.ignore) := by
  unfold flagsAt
  by_cases hi : p ∈ o.ignore <;> by_cases hs : p ∈ o.secret <;> simp [hi, hs]

theorem flagsAt_secret : (o.flagsAt p).any FieldFlags.secret = decide (p ∈ o.secret) := by
  unfold flagsAt
  by_cases hi : p ∈ o.ignore <;> by_cases hs : p ∈ o.secret <;> simp [hi, hs]

/-- The lists have no defect if their paths are known and no secret path is ignored. -/
theorem defect?_eq_none_iff :
    o.defect? known = Option.none ↔
      (∀ p ∈ o.ignore, known p = true) ∧ ∀ p ∈ o.secret, known p = true ∧ p ∉ o.ignore := by
  have hignored : ∀ p, ignoredDefect? known p = Option.none ↔ known p = true := by
    intro p
    unfold ignoredDefect?
    split <;> simp_all
  have hsecret : ∀ p, secretDefect? known o p = Option.none ↔ known p = true ∧ p ∉ o.ignore := by
    intro p
    unfold secretDefect?
    split
    · split <;> simp_all
    · simp_all
  unfold defect?
  rw [Option.or_eq_none_iff, List.findSome?_eq_none_iff, List.findSome?_eq_none_iff]
  simp only [hignored, hsecret]

/-- Neither the order of the paths nor their repetition matters for what is said about a path. -/
theorem flagsAt_congr (hi : ∀ p, p ∈ o'.ignore ↔ p ∈ o.ignore)
    (hs : ∀ p, p ∈ o'.secret ↔ p ∈ o.secret) : o'.flagsAt = o.flagsAt := by
  funext p
  unfold flagsAt
  simp only [hi, hs]

theorem isIgnored_iff : o.isIgnored p = true ↔ ∃ q ∈ o.ignore, q.Covers p := by
  unfold isIgnored
  rw [List.any_eq_true]
  refine exists_congr fun q => and_congr_right fun _ => ?_
  rw [Bool.or_eq_true, decide_eq_true_eq, FieldPath.isBelow_iff, ← FieldPath.covers_iff_eq_or]

theorem isSecret_iff : o.isSecret p = true ↔ p ∈ o.secret := by
  unfold isSecret
  rw [List.any_eq_true]
  simp

end Overrides

/-! ## Attaching one override -/

/-- The lists with one more entry. -/
def Overrides.add (o : Overrides) (path : FieldPath) (new : FieldFlags) : Overrides where
  ignore := if new.ignore then o.ignore ++ [path] else o.ignore
  secret := if new.secret then o.secret ++ [path] else o.secret

/-- To add flags to what the lists say about a path is to add an entry to the lists. -/
theorem Overrides.addFlags_flagsAt (o : Overrides) (path : FieldPath) {new : FieldFlags}
    (h : new ≠ .none) : addFlags o.flagsAt path new = (o.add path new).flagsAt := by
  funext q
  unfold addFlags
  obtain ⟨ignore, secret⟩ := new
  by_cases hq : q = path
  · subst hq
    rw [if_pos rfl, flagsAt_getD]
    cases ignore <;> cases secret <;> simp_all [flagsAt, add, FieldFlags.union, FieldFlags.none]
  · rw [if_neg hq]
    cases ignore <;> cases secret <;> simp [flagsAt, add, hq]

theorem Overrides.isConflict_union (o : Overrides) (path : FieldPath) (new : FieldFlags) :
    (((o.flagsAt path).getD .none).union new).isConflict = true ↔
      (path ∈ o.ignore ∨ new.ignore = true) ∧ (path ∈ o.secret ∨ new.secret = true) := by
  rw [flagsAt_getD]
  simp [FieldFlags.union, FieldFlags.isConflict]

section

variable {os os' : Outline} {flags : FieldPath → Option FieldFlags}

/-- More flags for a path that the outline lacks do not change its tree. -/
theorem Outline.tree_addFlags_of_not_mem {path : FieldPath} (h : path ∉ os.paths .top)
    (new : FieldFlags) : os.tree (addFlags flags path new) = os.tree flags := by
  have hfields : os.fields (addFlags flags path new) .top 0 = os.fields flags .top 0 := by
    apply Outline.fields_congr
    intro f hf
    unfold addFlags
    rw [if_neg]
    rintro rfl
    refine h ?_
    rw [← Outline.map_path_fields flags .top 0]
    exact List.mem_map_of_mem hf
  unfold Outline.tree
  rw [hfields]

theorem attachIfPresent_tree (hp : os.IsProper) (path : FieldPath) (new : FieldFlags) :
    (os.tree flags).attachIfPresent path new =
      if path ∈ os.paths .top ∧ (((flags path).getD .none).union new).isConflict then
        .error (.conflictingOverride path)
      else .ok (os.tree (addFlags flags path new)) := by
  unfold FieldTree.attachIfPresent
  by_cases h : path ∈ os.paths .top
  · rw [if_pos (Outline.contains_tree.2 h), Outline.attach_tree hp, if_pos h]
    simp only [h, true_and]
  · rw [if_neg (fun hc => h (Outline.contains_tree.1 hc)), Outline.tree_addFlags_of_not_mem h]
    simp only [h, false_and, if_false]

/-- **An override is attached to the trees of both roots**, if one of them has its path and this
does not make a conflict. -/
theorem attachToRoots_tree (hp : os.IsProper) (hp' : os'.IsProper) (path : FieldPath)
    (new : FieldFlags) :
    attachToRoots (os.tree flags, os'.tree flags) (path, new) =
      if path ∈ os.paths .top ∨ path ∈ os'.paths .top then
        if (((flags path).getD .none).union new).isConflict then .error (.conflictingOverride path)
        else .ok (os.tree (addFlags flags path new), os'.tree (addFlags flags path new))
      else .error (.danglingOverride path) := by
  have hknown : (!(os.tree flags).contains path && !(os'.tree flags).contains path) = true ↔
      ¬ (path ∈ os.paths .top ∨ path ∈ os'.paths .top) := by
    rw [Bool.and_eq_true, Bool.not_eq_true', Bool.not_eq_true', ← Bool.not_eq_true,
      ← Bool.not_eq_true, Outline.contains_tree, Outline.contains_tree, not_or]
  unfold attachToRoots
  simp only [hknown, attachIfPresent_tree hp, attachIfPresent_tree hp']
  by_cases hc : (((flags path).getD .none).union new).isConflict
  · by_cases hs : path ∈ os.paths .top <;> by_cases ht : path ∈ os'.paths .top <;>
      simp [hc, hs, ht, bind, Except.bind]
  · by_cases hs : path ∈ os.paths .top <;> by_cases ht : path ∈ os'.paths .top <;>
      simp [hc, hs, ht, bind, Except.bind, pure, Except.pure]

end

/-! ## Attaching the two lists -/

/-- A value, unless there is a defect. -/
def okUnless {σ ε : Type} (defect? : Option ε) (value : σ) : Except ε σ :=
  match defect? with
  | some e => .error e
  | none => .ok value

/-- A fold whose state stands for what has been dealt with ends with the first defect, or with the
state for everything. -/
theorem foldlM_eq_okUnless {α σ ε : Type} {step : σ → α → Except ε σ} (state : List α → σ)
    (defect? : α → Option ε)
    (hstep : ∀ done a, step (state done) a = okUnless (defect? a) (state (done ++ [a]))) :
    ∀ todo done : List α,
      todo.foldlM step (state done) = okUnless (todo.findSome? defect?) (state (done ++ todo))
  | [], done => by
    rw [List.append_nil]
    rfl
  | a :: todo, done => by
    have ih := foldlM_eq_okUnless state defect? hstep todo (done ++ [a])
    rw [List.append_assoc] at ih
    rw [List.foldlM_cons, hstep, List.findSome?_cons]
    cases defect? a with
    | some e => rfl
    | none => exact ih

section

variable {os os' : Outline} {known : FieldPath → Bool}

/-- The trees of two outlines with what the lists say. -/
def overriddenTrees (os os' : Outline) (o : Overrides) : FieldTree × FieldTree :=
  (os.tree o.flagsAt, os'.tree o.flagsAt)

theorem foldlM_ignored (hp : os.IsProper) (hp' : os'.IsProper)
    (hknown : ∀ p, known p = true ↔ p ∈ os.paths .top ∨ p ∈ os'.paths .top)
    (paths : List FieldPath) :
    (paths.map (·, FieldFlags.ignored)).foldlM attachToRoots (overriddenTrees os os' .none) =
      okUnless (paths.findSome? (Overrides.ignoredDefect? known))
        (overriddenTrees os os' ⟨paths, []⟩) := by
  rw [List.foldlM_map]
  refine foldlM_eq_okUnless (fun done => overriddenTrees os os' ⟨done, []⟩)
    (Overrides.ignoredDefect? known) (fun done p => ?_) paths []
  -- no path has been marked as secret yet
  have hclear : ¬ ((((Overrides.mk done []).flagsAt p).getD .none).union
      .ignored).isConflict = true := by
    rw [Overrides.isConflict_union]
    simp [FieldFlags.ignored]
  unfold overriddenTrees Overrides.ignoredDefect?
  rw [attachToRoots_tree hp hp', if_neg hclear, Overrides.addFlags_flagsAt _ _ (by decide)]
  by_cases h : known p = true
  · rw [if_pos h, if_pos ((hknown p).1 h)]
    rfl
  · rw [if_neg h, if_neg (fun hk => h ((hknown p).2 hk))]
    rfl

theorem foldlM_secret (hp : os.IsProper) (hp' : os'.IsProper)
    (hknown : ∀ p, known p = true ↔ p ∈ os.paths .top ∨ p ∈ os'.paths .top) (o : Overrides) :
    (o.secret.map (·, FieldFlags.confidential)).foldlM attachToRoots
        (overriddenTrees os os' ⟨o.ignore, []⟩) =
      okUnless (o.secret.findSome? (o.secretDefect? known)) (overriddenTrees os os' o) := by
  rw [List.foldlM_map]
  refine foldlM_eq_okUnless (fun done => overriddenTrees os os' ⟨o.ignore, done⟩)
    (o.secretDefect? known) (fun done p => ?_) o.secret []
  -- all ignored paths are known by now, so a conflict shows at the secret one
  have hconflict : ((((Overrides.mk o.ignore done).flagsAt p).getD .none).union
      .confidential).isConflict = true ↔ p ∈ o.ignore := by
    rw [Overrides.isConflict_union]
    simp [FieldFlags.confidential]
  unfold overriddenTrees Overrides.secretDefect?
  rw [attachToRoots_tree hp hp', Overrides.addFlags_flagsAt _ _ (by decide)]
  by_cases h : known p = true
  · rw [if_pos h, if_pos ((hknown p).1 h)]
    by_cases hi : p ∈ o.ignore
    · rw [if_pos hi, if_pos (hconflict.2 hi)]
      rfl
    · rw [if_neg hi, if_neg (fun hc => hi (hconflict.1 hc))]
      rfl
  · rw [if_neg h, if_neg (fun hk => h ((hknown p).2 hk))]
    rfl

/-- **What attaching all overrides comes to.** -/
theorem foldlM_entries (hp : os.IsProper) (hp' : os'.IsProper)
    (hknown : ∀ p, known p = true ↔ p ∈ os.paths .top ∨ p ∈ os'.paths .top) (o : Overrides) :
    o.entries.foldlM attachToRoots (overriddenTrees os os' .none) =
      okUnless (o.defect? known) (overriddenTrees os os' o) := by
  unfold Overrides.entries Overrides.defect?
  rw [List.foldlM_append, foldlM_ignored hp hp' hknown]
  cases o.ignore.findSome? (Overrides.ignoredDefect? known) with
  | some e => rfl
  | none => exact foldlM_secret hp hp' hknown o

end

/-! ## Building a resource -/

/-- The tree with other flags at every field. -/
def FieldTree.withFlags (t : FieldTree) (flags : FieldPath → Option FieldFlags) : FieldTree :=
  { t with fields := t.fields.map fun f => { f with flags := flags f.path } }

theorem Outline.map_withFlags_fields (flags new : FieldPath → Option FieldFlags) :
    ∀ (scope : Scope) (id : Nat) (os : Outline),
      (os.fields flags scope id).map (fun f => { f with flags := new f.path }) =
        os.fields new scope id
  | _, _, .done => rfl
  | scope, id, .leaf _ _ rest => by
    have ih := map_withFlags_fields flags new scope (id + 1) rest
    simp only [fields, List.map_cons, ih]
    rfl
  | scope, id, .nested name nesting members rest => by
    have ihm := map_withFlags_fields flags new (nesting.scope (scope.extend name)) (id + 1) members
    have ihr := map_withFlags_fields flags new scope (id + 1 + members.size) rest
    simp only [fields, List.map_cons, List.map_append, ihm, ihr]
    cases nesting <;> rfl

theorem Outline.withFlags_tree (os : Outline) (flags new : FieldPath → Option FieldFlags) :
    (os.tree flags).withFlags new = os.tree new := by
  unfold tree FieldTree.withFlags
  rw [← map_withFlags_fields flags new]
  simp only [List.map_toArray]

namespace Resource

/-- What building a resource comes to: the first defect of its Spec, of its Status, or of its
overrides, or else the trees of its definition with what the overrides say about their fields. -/
def outcome (definition : ResourceDefinition) (o : Overrides) (flavor : Flavor) :
    Except BuildError Resource :=
  match FieldTree.build definition.shapes definition.spec,
      FieldTree.build definition.shapes definition.status with
  | .error defect, _ => .error ⟨definition.name, defect⟩
  | .ok _, .error defect => .error ⟨definition.name, defect⟩
  | .ok spec, .ok status =>
    match o.defect? fun path => spec.contains path || status.contains path with
    | some defect => .error ⟨definition.name, defect⟩
    | none =>
      .ok ⟨definition.name, spec.withFlags o.flagsAt, status.withFlags o.flagsAt, flavor⟩

variable {definition : ResourceDefinition} {o : Overrides} {flavor : Flavor} {resource : Resource}

/-- The overrides for two outlines have no defect. -/
def Accepts (os os' : Outline) (o : Overrides) : Prop :=
  (∀ p ∈ o.ignore, p ∈ os.paths .top ∨ p ∈ os'.paths .top) ∧
    ∀ p ∈ o.secret, (p ∈ os.paths .top ∨ p ∈ os'.paths .top) ∧ p ∉ o.ignore

theorem contains_or_iff {os os' : Outline} (p : FieldPath) :
    ((os.tree noFlags).contains p || (os'.tree noFlags).contains p) = true ↔
      p ∈ os.paths .top ∨ p ∈ os'.paths .top := by
  rw [Bool.or_eq_true, Outline.contains_tree, Outline.contains_tree]

/-- **Building a resource has the outcome that its definition and overrides have.** -/
theorem build_eq_outcome : build definition o flavor = outcome definition o flavor := by
  unfold build outcome buildTrees
  cases hs : FieldTree.build definition.shapes definition.spec with
  | error defect => rfl
  | ok spec =>
    cases ht : FieldTree.build definition.shapes definition.status with
    | error defect => rfl
    | ok status =>
      obtain ⟨os, -, hp, rfl⟩ := FieldTree.build_eq_ok_iff.1 hs
      obtain ⟨os', -, hp', rfl⟩ := FieldTree.build_eq_ok_iff.1 ht
      have hfold := foldlM_entries hp hp' contains_or_iff o
      have hstart : overriddenTrees os os' .none = (os.tree noFlags, os'.tree noFlags) := rfl
      rw [hstart] at hfold
      simp only [bind, Except.bind, hfold, Outline.withFlags_tree]
      cases o.defect? fun p => (os.tree noFlags).contains p || (os'.tree noFlags).contains p with
      | some defect => rfl
      | none => rfl

/-- **Which resources are built**, with the outlines of their trees. -/
theorem build_eq_ok_iff :
    build definition o flavor = .ok resource ↔
      ∃ os os', (Describes definition.shapes definition.spec os ∧ os.IsProper) ∧
        (Describes definition.shapes definition.status os' ∧ os'.IsProper) ∧
        Accepts os os' o ∧
        resource = ⟨definition.name, os.tree o.flagsAt, os'.tree o.flagsAt, flavor⟩ := by
  rw [build_eq_outcome]
  unfold outcome
  constructor
  · intro h
    split at h
    · cases h
    · cases h
    · rename_i spec status hs ht
      obtain ⟨os, hd, hp, rfl⟩ := FieldTree.build_eq_ok_iff.1 hs
      obtain ⟨os', hd', hp', rfl⟩ := FieldTree.build_eq_ok_iff.1 ht
      split at h
      · cases h
      · rename_i hnone
        rw [Overrides.defect?_eq_none_iff] at hnone
        simp only [contains_or_iff] at hnone
        rw [Outline.withFlags_tree, Outline.withFlags_tree] at h
        cases h
        exact ⟨os, os', ⟨hd, hp⟩, ⟨hd', hp'⟩, hnone, rfl⟩
  · rintro ⟨os, os', ⟨hd, hp⟩, ⟨hd', hp'⟩, haccepts, rfl⟩
    have hs := FieldTree.build_eq_ok_iff.2 ⟨os, hd, hp, rfl⟩
    have ht := FieldTree.build_eq_ok_iff.2 ⟨os', hd', hp', rfl⟩
    have hnone : o.defect? (fun p => (os.tree noFlags).contains p ||
        (os'.tree noFlags).contains p) = none := by
      rw [Overrides.defect?_eq_none_iff]
      simp only [contains_or_iff]
      exact haccepts
    simp only [hs, ht, hnone, Outline.withFlags_tree]

/-- **The trees of a resource are those of the outlines that its definition describes.** -/
theorem build_outlines (h : build definition o flavor = .ok resource) :
    (∃ os, Describes definition.shapes definition.spec os ∧ resource.spec.Outlines os) ∧
      ∃ os, Describes definition.shapes definition.status os ∧ resource.status.Outlines os := by
  obtain ⟨os, os', ⟨hd, hp⟩, ⟨hd', hp'⟩, -, rfl⟩ := build_eq_ok_iff.1 h
  exact ⟨⟨os, hd, Outline.tree_outlines hp⟩, os', hd', Outline.tree_outlines hp'⟩

end Resource

/-! ## A sample -/

/-- A store with two endpoints of one shape. -/
def storeDefinition : ResourceDefinition where
  name := "Store"
  spec :=
    [.scalar "name" .string, .shapeRef "main" "Endpoint", .shapeRef "backup" "Endpoint",
      .listOfStruct "rules" [.scalar "id" .string]]
  status := [.scalar "state" .string]
  shapes := .ofList
    [("Endpoint",
      [.mapOfStrings "labels", .struct "limits" [.scalar "rate" .integer], .bytes "address"])]

/-- Of the second endpoint, only the address is compared. -/
def storeOverrides : Overrides where
  ignore :=
    [⟨⟨"backup", by decide⟩, [.member ⟨"labels", by decide⟩]⟩,
      ⟨⟨"backup", by decide⟩, [.member ⟨"limits", by decide⟩, .member ⟨"rate", by decide⟩]⟩]
  secret := [⟨⟨"main", by decide⟩, [.member ⟨"address", by decide⟩]⟩]

theorem build_store : ∃ resource,
    Resource.build storeDefinition storeOverrides .ack = .ok resource := by
  cases h : Resource.build storeDefinition storeOverrides .ack with
  | ok resource => exact ⟨resource, rfl⟩
  | error e =>
    have hok : (Resource.build storeDefinition storeOverrides .ack).isOk = true := by cbv
    rw [h] at hok
    cases hok

end ResourceDelta
