import ResourceDelta.Proofs.FieldTree.Building
import ResourceDelta.Resource

/-!
# Trees that are those of outlines

A tree may be known to be that of an outline without its flags being known from elsewhere: they are
then those that it has itself.

* `FieldTree.Outlines` — a tree is that of a proper outline, with the flags that its fields have.
* `FieldTree.isIgnored_iff` — a path is ignored if one that covers it is flagged so.
-/

set_option autoImplicit false

namespace ResourceDelta

/-- What overrides said about the field with a given path. -/
def FieldTree.flagsAt (t : FieldTree) (path : FieldPath) : Option FieldFlags :=
  (t.resolve path).bind Field.flags

/-- Whether there is a field with that very path and it is ignored. -/
def FieldTree.ignores (t : FieldTree) (path : FieldPath) : Bool :=
  (t.resolve path).any Field.isIgnored

/-- The tree is that of a proper outline. -/
structure FieldTree.Outlines (t : FieldTree) (os : Outline) : Prop where
  proper : os.IsProper
  eq_tree : t = os.tree t.flagsAt

namespace Outline

variable {flags : FieldPath → Option FieldFlags} {os : Outline}

theorem tree_outlines (hp : os.IsProper) : (os.tree flags).Outlines os := by
  refine ⟨hp, ?_⟩
  have hflags : ∀ f ∈ os.fields flags .top 0, (os.tree flags).flagsAt f.path = flags f.path := by
    intro f hf
    unfold FieldTree.flagsAt
    rw [(resolve_tree hp).2 ⟨mem_tree_fields.2 hf, rfl⟩]
    exact flags_of_mem_fields hf
  have hfields := fields_congr hflags
  show FieldTree.mk _ _ = FieldTree.mk _ _
  rw [hfields]

end Outline

namespace FieldTree.Outlines

variable {t : FieldTree} {os : Outline}

theorem fields_eq (h : t.Outlines os) : t.fields.toList = os.fields t.flagsAt .top 0 := by
  conv => lhs; rw [h.eq_tree]
  simp [Outline.tree]

theorem roots_eq (h : t.Outlines os) : t.roots = os.ids 0 := by
  rw [h.eq_tree]
  rfl

theorem paths_nodup (h : t.Outlines os) : (t.fields.toList.map Field.path).Nodup := by
  rw [h.fields_eq]
  exact Outline.paths_nodup h.proper

/-- A field of the tree is told by its path. -/
theorem eq_of_path_eq (h : t.Outlines os) {f g : Field} (hf : f ∈ t.fields) (hg : g ∈ t.fields)
    (hpath : f.path = g.path) : f = g :=
  List.inj_on_of_nodup_map h.paths_nodup (Array.mem_toList_iff.2 hf) (Array.mem_toList_iff.2 hg)
    hpath

end FieldTree.Outlines

theorem FieldTree.isIgnored_iff {t : FieldTree} {path : FieldPath} :
    t.isIgnored path = true ↔ ∃ q : FieldPath, q.Covers path ∧ t.ignores q = true := by
  unfold FieldTree.isIgnored
  rw [List.any_eq_true]
  simp only [FieldPath.mem_self_ancestors_iff]
  rfl

end ResourceDelta
