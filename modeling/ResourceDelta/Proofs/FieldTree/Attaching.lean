import ResourceDelta.FieldTree.Override
import ResourceDelta.Proofs.FieldTree.Building

/-!
# Attaching overrides one after the other

Attaching an override changes what is said about one field and nothing else, so the tree of an
outline stays one.

* `addFlags` — what is said about each field once more has been said about one.
* `Outline.attachOverride_tree` — what attaching an override to the tree of an outline comes to.
* `FieldTree.attachEach` — the tree after some calls, accepted or rejected.
* `Outline.attachEach_tree` — it is the tree of the same outline.
-/

set_option autoImplicit false

namespace ResourceDelta

/-- What is said about each field once `new` has been added to what is said about one. -/
def addFlags (flags : FieldPath → Option FieldFlags) (path : FieldPath) (new : FieldFlags) :
    FieldPath → Option FieldFlags :=
  fun q => if q = path then some (((flags path).getD .none).union new) else flags q

/-- The tree that some calls leave behind, each accepted or rejected. -/
def FieldTree.attachEach (t : FieldTree) (calls : List (FieldPath × FieldFlags)) : FieldTree :=
  calls.foldl (fun t call => (t.attachOverride call.1 call.2).2) t

namespace Outline

variable {os : Outline} {flags : FieldPath → Option FieldFlags}

/-- **An override is attached to the field with its path, if this does not make a conflict**;
otherwise the tree is left as it was. -/
theorem attachOverride_tree (hp : os.IsProper) (path : FieldPath) (new : FieldFlags) :
    (os.tree flags).attachOverride path new =
      if path ∈ os.paths .top then
        if (((flags path).getD .none).union new).isConflict then
          (.error (.conflictingOverride path), os.tree flags)
        else (.ok (), os.tree (addFlags flags path new))
      else (.error (.danglingOverride path), os.tree flags) := by
  unfold FieldTree.attachOverride
  by_cases h : path ∈ os.paths .top
  · obtain ⟨f, hf, hflags⟩ : ∃ f, (os.tree flags).resolve path = some f ∧ f.flags = flags path :=
      exists_resolve_tree hp h
    rw [hf, if_pos h]
    simp only [hflags, setFlags_tree]
    rfl
  · rw [resolve_tree_eq_none h, if_neg h]

/-- The tree of an outline after an override that must be accepted. -/
theorem attach_tree (hp : os.IsProper) (path : FieldPath) (new : FieldFlags) :
    (os.tree flags).attach path new =
      if path ∈ os.paths .top then
        if (((flags path).getD .none).union new).isConflict then .error (.conflictingOverride path)
        else .ok (os.tree (addFlags flags path new))
      else .error (.danglingOverride path) := by
  unfold FieldTree.attach
  rw [attachOverride_tree hp]
  by_cases h : path ∈ os.paths .top
  · rw [if_pos h, if_pos h]
    by_cases hc : (((flags path).getD .none).union new).isConflict = true
    · rw [if_pos hc, if_pos hc]
    · rw [if_neg hc, if_neg hc]
  · rw [if_neg h, if_neg h]

/-- A call, accepted or rejected, leaves the tree of an outline one. -/
theorem exists_attachOverride_tree (flags : FieldPath → Option FieldFlags) (hp : os.IsProper)
    (path : FieldPath) (new : FieldFlags) :
    ∃ flags', ((os.tree flags).attachOverride path new).2 = os.tree flags' := by
  rw [attachOverride_tree hp]
  split
  · split
    · exact ⟨flags, rfl⟩
    · exact ⟨_, rfl⟩
  · exact ⟨flags, rfl⟩

/-- **After any calls, the tree of an outline is one.** -/
theorem attachEach_tree (flags : FieldPath → Option FieldFlags) (hp : os.IsProper)
    (calls : List (FieldPath × FieldFlags)) :
    ∃ flags', (os.tree flags).attachEach calls = os.tree flags' := by
  induction calls generalizing flags with
  | nil => exact ⟨flags, rfl⟩
  | cons call calls ih =>
    obtain ⟨flags', h⟩ := exists_attachOverride_tree flags hp call.1 call.2
    have hcons : (os.tree flags).attachEach (call :: calls) =
        ((os.tree flags).attachOverride call.1 call.2).2.attachEach calls := rfl
    rw [hcons, h]
    exact ih flags'

end Outline

end ResourceDelta
