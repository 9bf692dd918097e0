import ResourceDelta.Proofs.FieldTree.Following

/-!
# Where an outline stands in a tree

The fields of an outline occupy consecutive numbers of a tree, and so do the fields below each of
them.

* `FieldTree.Holds` — the fields of an outline stand in a tree, from some number on.
* `FieldTree.Holds.leaf`, `FieldTree.Holds.nested` — where the parts of the outline stand.
* `FieldTree.Holds.children_lt` — children come after the field that they are members of.
* `FieldTree.Holds.stands` — every field is that of a definition to which its path leads, and the
  members of the definition stand directly after it.
-/

set_option autoImplicit false

namespace ResourceDelta

namespace FieldTree

variable {t : FieldTree} {flags : FieldPath → Option FieldFlags} {scope : Scope} {id : Nat}

/-- The fields of an outline stand in the tree, from number `id` on. -/
def Holds (t : FieldTree) (flags : FieldPath → Option FieldFlags) (scope : Scope) (id : Nat)
    (os : Outline) : Prop :=
  ∀ (i : Nat) (f : Field), (os.fields flags scope id)[i]? = some f → t.fields[id + i]? = some f

theorem holds_tree (os : Outline) : (os.tree flags).Holds flags .top 0 os := by
  intro i f hf
  rw [Nat.zero_add]
  simpa [Outline.tree] using hf

theorem Holds.leaf {name : FieldName} {type : LeafType} {rest : Outline}
    (h : t.Holds flags scope id (.leaf name type rest)) :
    t.fields[id]? = some { Field.bare (scope.extend name) type.kind with
        flags := flags (scope.extend name) } ∧
      t.Holds flags scope (id + 1) rest := by
  refine ⟨h 0 _ rfl, fun i f hf => ?_⟩
  rw [Nat.add_right_comm]
  exact h (i + 1) f hf

theorem Holds.nested {name : FieldName} {nesting : Nesting} {members rest : Outline}
    (h : t.Holds flags scope id (.nested name nesting members rest)) :
    t.fields[id]? = some (nesting.field (scope.extend name) (flags (scope.extend name))
        (members.ids (id + 1))) ∧
      t.Holds flags (nesting.scope (scope.extend name)) (id + 1) members ∧
      t.Holds flags scope (id + 1 + members.size) rest := by
  refine ⟨h 0 _ rfl, fun i f hf => ?_, fun i f hf => ?_⟩
  · rw [Nat.add_right_comm]
    refine h (i + 1) f ?_
    obtain ⟨hlt, -⟩ := List.getElem?_eq_some_iff.1 hf
    show (members.fields flags (nesting.scope (scope.extend name)) (id + 1) ++
      rest.fields flags scope (id + 1 + members.size))[i]? = some f
    rw [List.getElem?_append_left hlt]
    exact hf
  · have hindex : id + 1 + members.size + i = id + (members.size + i + 1) := by omega
    rw [hindex]
    refine h (members.size + i + 1) f ?_
    show (members.fields flags (nesting.scope (scope.extend name)) (id + 1) ++
      rest.fields flags scope (id + 1 + members.size))[members.size + i]? = some f
    rw [List.getElem?_append_right (by rw [Outline.length_fields]; omega), Outline.length_fields,
      Nat.add_sub_cancel_left]
    exact hf

/-- Numbers of the fields of an outline that stands in the tree are in range. -/
theorem Holds.ids_lt {os : Outline} (h : t.Holds flags scope id os) :
    ∀ n ∈ os.ids id, id ≤ n ∧ n < t.fields.size := by
  intro n hn
  obtain ⟨hle, hlt⟩ := Outline.ids_range hn
  refine ⟨hle, ?_⟩
  have hi : n - id < (os.fields flags scope id).length := by
    rw [Outline.length_fields]
    omega
  obtain ⟨hlt', -⟩ := Array.getElem?_eq_some_iff.1 (h (n - id) _ (List.getElem?_eq_getElem hi))
  omega

/-- The children of a field of an outline that stands in the tree come after it. -/
theorem Holds.children_lt : ∀ {scope : Scope} {id : Nat} {os : Outline},
    t.Holds flags scope id os → ∀ (i : Nat) (f : Field), (os.fields flags scope id)[i]? = some f →
      ∀ c ∈ f.children, id + i < c ∧ c < t.fields.size
  | scope, id, .leaf name type rest, h, i, f, hf, c, hc => by
    cases i with
    | zero =>
      cases hf
      cases hc
    | succ i =>
      have ih := h.leaf.2.children_lt i f hf c hc
      omega
  | scope, id, .nested name nesting members rest, h, i, f, hf, c, hc => by
    obtain ⟨-, hm, hr⟩ := h.nested
    cases i with
    | zero =>
      cases hf
      have hc : c ∈ members.ids (id + 1) := by
        cases nesting with
        | struct => exact hc
        | list => cases hc
        | map => cases hc
      have hlt := hm.ids_lt c hc
      omega
    | succ i =>
      have hf : (members.fields flags (nesting.scope (scope.extend name)) (id + 1) ++
          rest.fields flags scope (id + 1 + members.size))[i]? = some f := hf
      rw [List.getElem?_append, Outline.length_fields] at hf
      split at hf
      · have ih := hm.children_lt i f hf c hc
        omega
      · have ih := hr.children_lt _ f hf c hc
        omega

/-! ## What stands at a number -/

variable {shapes : ShapeTable}

/-- The field at number `n` stands in the tree as its definition has it: a leaf has no members, and
those of any other field stand from the next number on. -/
inductive Stands (t : FieldTree) (flags : FieldPath → Option FieldFlags) (shapes : ShapeTable)
    (n : Nat) : Field → FieldDefinition → Prop
  | leaf {path : FieldPath} {type : LeafType} {own : Option FieldFlags} {name : String} :
      Stands t flags shapes n { Field.bare path type.kind with flags := own } (.leaf name type)
  | nested {path : FieldPath} {nesting : Nesting} {own : Option FieldFlags} {members : Outline}
      {d : FieldDefinition} (kind : d.kind = nesting.kind)
      (described : Describes shapes (d.membersIn shapes) members) (proper : members.IsProper)
      (nonempty : members ≠ .done) (holds : t.Holds flags (nesting.scope path) (n + 1) members) :
      Stands t flags shapes n (nesting.field path own (members.ids (n + 1))) d

/-- Every field of a described outline is that of a definition to which its path leads. -/
theorem Holds.stands : ∀ {scope : Scope} {id : Nat} {os : Outline}
    {definitions : List FieldDefinition}, t.Holds flags scope id os →
    Describes shapes definitions os → os.IsProper →
    ∀ {i : Nat} {f : Field}, (os.fields flags scope id)[i]? = some f →
      ∃ d, LeadsTo shapes scope definitions f.path d ∧ t.Stands flags shapes (id + i) f d
  | scope, id, .leaf name type rest, _, hh, hd, hp, i, f, hf => by
    obtain ⟨ds, rfl, hrest⟩ := hd.of_leaf
    cases i with
    | zero =>
      cases hf
      exact ⟨_, .member List.mem_cons_self rfl, .leaf⟩
    | succ i =>
      obtain ⟨d, hl, hs⟩ := hh.leaf.2.stands hrest hp.2 hf
      rw [Nat.add_right_comm] at hs
      exact ⟨d, hl.cons, hs⟩
  | scope, id, .nested name nesting members rest, _, hh, hd, hp, i, f, hf => by
    obtain ⟨d, ds, rfl, hname, hkind, hnesting, hmembers, hrest⟩ := hd.of_nested
    obtain ⟨-, hm, hr⟩ := hh.nested
    cases i with
    | zero =>
      cases hf
      refine ⟨d, ?_, .nested hkind hmembers hp.2.2.1 hp.2.1 hm⟩
      rw [Nesting.field_path]
      exact .member List.mem_cons_self hname
    | succ i =>
      have hf : (members.fields flags (nesting.scope (scope.extend name)) (id + 1) ++
        rest.fields flags scope (id + 1 + members.size))[i]? = some f := hf
      rw [List.getElem?_append, Outline.length_fields] at hf
      split at hf
      · obtain ⟨d', hl, hs⟩ := hm.stands hmembers hp.2.2.1 hf
        rw [Nat.add_right_comm] at hs
        exact ⟨d', .further List.mem_cons_self hname hnesting hl, hs⟩
      · obtain ⟨d', hl, hs⟩ := hr.stands hrest hp.2.2.2 hf
        have hindex : id + 1 + members.size + (i - members.size) = id + (i + 1) := by omega
        rw [hindex] at hs
        exact ⟨d', hl.cons, hs⟩

/-- The fields numbered as an outline's have the paths of its names, in order. -/
theorem Holds.paths_eq : ∀ {scope : Scope} {id : Nat} {os : Outline}, t.Holds flags scope id os →
    (os.ids id).map (fun n => t.fields[n]?.map Field.path) =
      os.names.map fun name => some (scope.extend name)
  | _, _, .done, _ => rfl
  | scope, id, .leaf name type rest, h => by
    obtain ⟨hf, hr⟩ := h.leaf
    simp only [Outline.ids, Outline.names, List.map_cons, hf, hr.paths_eq]
    rfl
  | scope, id, .nested name nesting members rest, h => by
    obtain ⟨hf, -, hr⟩ := h.nested
    simp only [Outline.ids, Outline.names, List.map_cons, hf, hr.paths_eq, Option.map_some,
      Nesting.field_path]

end FieldTree

end ResourceDelta
