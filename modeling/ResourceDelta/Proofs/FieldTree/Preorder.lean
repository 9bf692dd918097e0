import Mathlib.Data.List.Range
import ResourceDelta.Proofs.FieldTree.Indexed

/-!
# Trees of outlines are laid out in preorder

A field of the tree of an outline is followed by the fields below it, and every number is that of
one member of one field, or of one top-level field.

* `Outline.ids_ascending` — members are numbered in the order of their definition.
* `Outline.numbers_perm` — every number occurs once among the members of the scope and of all
  fields.
* `Outline.isFollowedByBelow_fields` — the fields below a field are those that come directly after
  it.  The induction is on the outline: fields of two siblings are not below each other.
-/

set_option autoImplicit false

namespace ResourceDelta

/-! ## Blocks of fields -/

/-- The fields that come directly after the one at place `i`, up to some place, are those below
it. -/
def IsFollowedByBelow (fs : List Field) (i : Nat) (f : Field) : Prop :=
  ∃ k, i + k < fs.length ∧
    ∀ j g, fs[j]? = some g → (g.path.isBelow f.path = true ↔ i < j ∧ j ≤ i + k)

section

variable {fs gs : List Field} {i : Nat} {f : Field}

theorem isFollowedByBelow_head (fs : List Field) (hfs : ∀ g ∈ fs, g.path.isBelow f.path = true)
    (hgs : ∀ g ∈ gs, g.path.isBelow f.path = false) :
    IsFollowedByBelow (f :: (fs ++ gs)) 0 f := by
  refine ⟨fs.length, ?_, fun j g hj => ?_⟩
  · simp only [List.length_cons, List.length_append]
    omega
  cases j with
  | zero =>
    cases hj
    simp [FieldPath.isBelow]
  | succ j =>
    rw [List.getElem?_cons_succ, List.getElem?_append] at hj
    split at hj
    · rename_i hlt
      have := hfs g (List.mem_of_getElem? hj)
      simp only [this, true_iff]
      omega
    · rename_i hlt
      have := hgs g (List.mem_of_getElem? hj)
      simp only [this, Bool.false_eq_true, false_iff]
      omega

theorem IsFollowedByBelow.append (h : IsFollowedByBelow fs i f)
    (hgs : ∀ g ∈ gs, g.path.isBelow f.path = false) : IsFollowedByBelow (fs ++ gs) i f := by
  obtain ⟨k, hk, hiff⟩ := h
  refine ⟨k, ?_, fun j g hj => ?_⟩
  · rw [List.length_append]
    omega
  · rw [List.getElem?_append] at hj
    split at hj
    · exact hiff j g hj
    · rename_i hlt
      have := hgs g (List.mem_of_getElem? hj)
      simp only [this, Bool.false_eq_true, false_iff]
      omega

theorem IsFollowedByBelow.prepend (fs : List Field) (h : IsFollowedByBelow gs i f)
    (hfs : ∀ g ∈ fs, g.path.isBelow f.path = false) :
    IsFollowedByBelow (fs ++ gs) (fs.length + i) f := by
  obtain ⟨k, hk, hiff⟩ := h
  refine ⟨k, ?_, fun j g hj => ?_⟩
  · rw [List.length_append]
    omega
  · rw [List.getElem?_append] at hj
    split at hj
    · rename_i hlt
      have := hfs g (List.mem_of_getElem? hj)
      simp only [this, Bool.false_eq_true, false_iff]
      omega
    · rw [hiff _ g hj]
      omega

end

/-! ## Numbers of members -/

/-- The members below a field, by number. -/
def Field.members (f : Field) : List Nat :=
  f.children ++ f.elementMembers

@[simp] theorem Nesting.field_members (nesting : Nesting) (path : FieldPath)
    (flags : Option FieldFlags) (ids : List Nat) :
    (nesting.field path flags ids).members = ids := by
  cases nesting <;> simp [Nesting.field, Field.withMembers, Field.bare, Field.members]

namespace Outline

variable {flags : FieldPath → Option FieldFlags}

theorem ids_ascending : ∀ (id : Nat) (os : Outline), (os.ids id).Pairwise (· < ·)
  | _, .done => .nil
  | id, .leaf _ _ rest => by
    refine List.pairwise_cons.2 ⟨fun n hn => ?_, ids_ascending _ rest⟩
    have := ids_range hn
    omega
  | id, .nested _ _ members rest => by
    refine List.pairwise_cons.2 ⟨fun n hn => ?_, ids_ascending _ rest⟩
    have := ids_range hn
    omega

/-- Every number occurs once among the members of the scope and the members of all fields. -/
theorem numbers_perm (flags : FieldPath → Option FieldFlags) :
    ∀ (scope : Scope) (id : Nat) (os : Outline),
      (os.ids id ++ (os.fields flags scope id).flatMap Field.members).Perm (List.range' id os.size)
  | _, _, .done => .nil
  | scope, id, .leaf name type rest => by
    have ih := numbers_perm flags scope (id + 1) rest
    have hsize : size (.leaf name type rest) = rest.size + 1 := Nat.add_comm ..
    rw [hsize, List.range'_succ]
    exact ih.cons id
  | scope, id, .nested name nesting members rest => by
    have ihm := numbers_perm flags (nesting.scope (scope.extend name)) (id + 1) members
    have ihr := numbers_perm flags scope (id + 1 + members.size) rest
    have hsize : size (.nested name nesting members rest) = members.size + rest.size + 1 := by
      simp only [size]
      omega
    rw [hsize, List.range'_succ, ← List.range'_append_1]
    simp only [ids, fields, List.flatMap_cons, List.flatMap_append, Nesting.field_members,
      List.cons_append]
    refine List.Perm.cons id ?_
    refine (List.perm_append_comm_assoc _ _ _).trans ?_
    refine ((List.perm_append_comm_assoc _ _ _).append_left _).trans ?_
    rw [← List.append_assoc]
    exact ihm.append ihr

/-! ## Preorder -/

/-- **The fields below a field come directly after it.** -/
theorem isFollowedByBelow_fields : ∀ {scope : Scope} {id : Nat} {os : Outline}, os.IsProper →
    ∀ {i : Nat} {f : Field}, (os.fields flags scope id)[i]? = some f →
      IsFollowedByBelow (os.fields flags scope id) i f
  | scope, id, .leaf name type rest, hp, i, f, hf => by
    have hapart : ∀ g ∈ rest.fields flags scope (id + 1),
        ¬ (scope.extend name).Covers g.path ∧ ¬ g.path.Covers (scope.extend name) :=
      fun g hg => apart_of_mem_fields (f := .bare (scope.extend name) type.kind) hp.1 (.refl _) hg
    cases i with
    | zero =>
      cases hf
      exact isFollowedByBelow_head [] (fun g hg => by cases hg)
        fun g hg => FieldPath.not_isBelow_of_not_covers (hapart g hg).1
    | succ i =>
      have hf : (rest.fields flags scope (id + 1))[i]? = some f := hf
      have ih := isFollowedByBelow_fields hp.2 hf
      rw [Nat.add_comm]
      refine ih.prepend [_] fun g hg => ?_
      rw [List.mem_singleton.1 hg]
      exact FieldPath.not_isBelow_of_not_covers (hapart f (List.mem_of_getElem? hf)).2
  | scope, id, .nested name nesting members rest, hp, i, f, hf => by
    have hbelow : ∀ g ∈ members.fields flags (nesting.scope (scope.extend name)) (id + 1),
        (scope.extend name).Covers g.path ∧ scope.extend name ≠ g.path :=
      fun g hg => below_of_mem_fields hg
    have hapart : ∀ f : Field, (scope.extend name).Covers f.path →
        ∀ g ∈ rest.fields flags scope (id + 1 + members.size),
          ¬ f.path.Covers g.path ∧ ¬ g.path.Covers f.path :=
      fun f hf g hg => apart_of_mem_fields hp.1 hf hg
    have hself : (scope.extend name).Covers (nesting.field (scope.extend name)
        (flags (scope.extend name)) (members.ids (id + 1))).path := by
      rw [Nesting.field_path]
      exact .refl _
    cases i with
    | zero =>
      cases hf
      refine isFollowedByBelow_head _ (fun g hg => ?_) fun g hg =>
        FieldPath.not_isBelow_of_not_covers (hapart _ hself g hg).1
      rw [Nesting.field_path, FieldPath.isBelow_iff]
      exact hbelow g hg
    | succ i =>
      have hf : (members.fields flags (nesting.scope (scope.extend name)) (id + 1) ++
        rest.fields flags scope (id + 1 + members.size))[i]? = some f := hf
      rw [Nat.add_comm]
      refine IsFollowedByBelow.prepend [_] ?_ fun g hg => ?_
      · rw [List.getElem?_append] at hf
        split at hf
        · have ih := isFollowedByBelow_fields hp.2.2.1 hf
          have hfc := (hbelow f (List.mem_of_getElem? hf)).1
          exact ih.append fun g hg => FieldPath.not_isBelow_of_not_covers (hapart f hfc g hg).1
        · rename_i hlt
          have ih := isFollowedByBelow_fields hp.2.2.2 hf
          have hfr := List.mem_of_getElem? hf
          have hi := Nat.add_sub_cancel' (Nat.le_of_not_lt hlt)
          rw [← hi]
          exact ih.prepend _ fun g hg =>
            FieldPath.not_isBelow_of_not_covers (hapart g (hbelow g hg).1 f hfr).2
      · rw [List.mem_singleton.1 hg]
        apply FieldPath.not_isBelow_of_not_covers
        rw [Nesting.field_path]
        rcases List.mem_append.1 (List.mem_of_getElem? hf) with hf | hf
        · intro hc
          exact (hbelow f hf).2 ((hbelow f hf).1.antisymm hc)
        · exact (hapart (.bare (scope.extend name) .nestedStruct) (.refl _) f hf).2

end Outline

end ResourceDelta
