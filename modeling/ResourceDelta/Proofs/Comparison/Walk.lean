import Mathlib
import ResourceDelta.Comparison.Fragment
import ResourceDelta.Proofs.Comparison.Reading
import ResourceDelta.Proofs.FieldTree.Standing
import ResourceDelta.Proofs.Resource.Overriding

/-!
# The walk over a field tree

`FieldTree.comparison` follows numbers from field to field.  On the tree of an outline it never
meets a defect, and what it gives is a reading of the outline:

* `FieldTree.Outlines.comparison_eq` — the program of a tree is its outline read as statements.
* `compareResource_succeeds` — a resource that has been built can be compared: every number on the
  walk is that of a field, and each step leads to a larger one.
-/

set_option autoImplicit false

namespace ResourceDelta

/-- Every kind but that of structs has a check. -/
theorem TypeKind.exists_check {kind : TypeKind} (h : kind ≠ .nestedStruct) :
    ∃ check, kind.check? = some check := by
  cases kind with
  | optionalScalar scalar => cases scalar <;> exact ⟨_, rfl⟩
  | nestedStruct => exact absurd rfl h
  | listOfScalar scalar => cases scalar <;> exact ⟨_, rfl⟩
  | listOfStruct => exact ⟨_, rfl⟩
  | mapStringToString => exact ⟨_, rfl⟩
  | mapOfStruct => exact ⟨_, rfl⟩
  | byteSequence => exact ⟨_, rfl⟩

/-- The statements that compare the fields of an outline. -/
def Reading.statements : Reading Statement where
  whole path kind :=
    match kind.check? with
    | some check => FieldTree.leafStatements (.bare path kind) check
    | none => []
  struct path members := FieldTree.structStatements (.bare path .nestedStruct) members

theorem Reading.statements_isFaithful : Reading.statements.IsFaithful where
  whole_ne_nil path kind h := by
    obtain ⟨check, hcheck⟩ := TypeKind.exists_check h
    simp only [statements, hcheck, FieldTree.leafStatements]
    split <;> exact List.cons_ne_nil _ _
  struct_eq_nil_iff path members := by
    simp only [statements, FieldTree.structStatements]
    cases members <;> simp

/-! ## Where an outline stands in a tree -/

namespace FieldTree

variable {t : FieldTree} {flags : FieldPath → Option FieldFlags} {scope : Scope} {id : Nat}

theorem Outlines.holds {os : Outline} (h : t.Outlines os) : t.Holds t.flagsAt .top 0 os := by
  conv => arg 1; rw [h.eq_tree]
  exact holds_tree os

theorem ignores_eq_any (t : FieldTree) (p : FieldPath) :
    t.ignores p = (t.flagsAt p).any FieldFlags.ignore := by
  unfold ignores flagsAt
  cases t.resolve p <;> rfl

/-! ## Following numbers -/

theorem FieldId.field_eq {bound : Nat} {x : t.FieldId bound} {f : Field}
    (h : t.fields[x.number]? = some f) : x.field = f :=
  (Array.getElem?_eq_some_iff.1 h).2

/-- Numbers that are in range are those of fields. -/
theorem fieldIds_eq_ok {bound : Nat} {numbers : List Nat} (missing : Nat → GenerationDefect)
    (h : ∀ n ∈ numbers, bound ≤ n ∧ n < t.fields.size) :
    ∃ xs, t.fieldIds bound missing numbers = .ok xs ∧ xs.map FieldId.number = numbers := by
  unfold fieldIds
  generalize 0 = position
  induction numbers generalizing position with
  | nil => exact ⟨[], rfl, rfl⟩
  | cons n ns ih =>
    obtain ⟨hn, hns⟩ := List.forall_mem_cons.1 h
    obtain ⟨xs, hxs, hnumbers⟩ := ih hns (position + 1)
    refine ⟨⟨n, hn.1, hn.2⟩ :: xs, ?_, by rw [List.map_cons, hnumbers]⟩
    rw [List.zipIdx_cons, List.mapM_cons, hxs]
    simp only [fieldId?, dif_pos hn]
    rfl

/-- The statements of a field, by its name; those of an ignored field are left out. -/
def part (t : FieldTree) {bound : Nat} (x : t.FieldId bound) : String × List Statement :=
  (x.field.name, if x.field.isIgnored then [] else ((t.fieldStatements x).toOption).getD [])

/-- Comparing siblings in order and leaving ignored ones out is to join their parts by name. -/
theorem compared_mapM {bound : Nat} {xs : List (t.FieldId bound)}
    (h : ∀ x ∈ xs, ∃ s, t.fieldStatements x = .ok s) :
    ∃ ss, (compared xs).mapM (fun x => t.fieldStatements x) = .ok ss ∧
      ss.flatten = joinByName (xs.map t.part) := by
  have hok : ∀ x ∈ compared xs,
      t.fieldStatements x = .ok (((t.fieldStatements x).toOption).getD []) := by
    intro x hx
    unfold compared at hx
    obtain ⟨s, hs⟩ := h x (List.mem_mergeSort.1 (List.mem_filter.1 hx).1)
    rw [hs]
    rfl
  refine ⟨_, mapM_eq_ok hok, ?_⟩
  have hfilter : ∀ l : List (t.FieldId bound),
      ((l.filter fun x => !x.field.isIgnored).map
          fun x => ((t.fieldStatements x).toOption).getD []).flatten =
        (l.map t.part).flatMap Prod.snd := by
    intro l
    induction l with
    | nil => rfl
    | cons x l ih =>
      rw [List.map_cons, List.flatMap_cons, ← ih, List.filter_cons]
      cases hx : x.field.isIgnored <;> simp [part, hx]
  unfold compared joinByName
  rw [hfilter, List.map_mergeSort (s := fun a b : String × List Statement => a.1 ≤ b.1)]
  intro a _ b _
  rfl

/-! ## The statements of one field -/

variable {bound : Nat} {x : t.FieldId bound} {f : Field}

theorem fieldStatements_whole {check : Check} (hx : t.fields[x.number]? = some f)
    (hcheck : f.kind.check? = some check) (hchildren : f.children = []) :
    t.fieldStatements x = .ok (leafStatements f check) := by
  rw [fieldStatements, FieldId.field_eq hx]
  simp only [hcheck, hchildren]
  rfl

theorem fieldStatements_struct {xs : List (t.FieldId (x.number + 1))}
    (hx : t.fields[x.number]? = some f) (hcheck : f.kind.check? = none)
    (hchildren : f.children ≠ [])
    (hids : t.fieldIds (x.number + 1) (fun _ => .missingChild f.path) f.children = .ok xs)
    (hxs : ∀ c ∈ xs, ∃ s, t.fieldStatements c = .ok s) :
    t.fieldStatements x = .ok (structStatements f (joinByName (xs.map t.part))) := by
  obtain ⟨ss, hss, hflat⟩ := compared_mapM hxs
  rw [fieldStatements, FieldId.field_eq hx]
  simp only [hcheck, List.isEmpty_eq_false_iff.2 hchildren, hids]
  rw [← hflat]
  show ((compared xs).mapM (fun c => t.fieldStatements c) >>= _) = _
  rw [hss]
  rfl

theorem part_eq {p : FieldPath} {n : String} {s : List Statement}
    (hx : t.fields[x.number]? = some f) (hpath : f.path = p) (hname : p.name = n)
    (hflags : f.flags = t.flagsAt p) (hs : t.fieldStatements x = .ok s) :
    t.part x = (n, if t.ignores p then [] else s) := by
  unfold part
  rw [FieldId.field_eq hx, hs, Field.name, hpath, hname, ignores_eq_any, ← hflags]
  rfl

/-! ## The whole walk -/

/-- Fields that are numbered as those of an outline are compared as the outline is read. -/
theorem walk : ∀ {os : Outline} {scope : Scope} {id bound : Nat} {xs : List (t.FieldId bound)},
    os.IsProper → t.Holds t.flagsAt scope id os → xs.map FieldId.number = os.ids id →
      (∀ x ∈ xs, ∃ s, t.fieldStatements x = .ok s) ∧
        xs.map t.part = os.parts .statements t.ignores scope
  | .done, scope, id, bound, xs, _, _, hids => by
    cases List.map_eq_nil_iff.1 hids
    exact ⟨fun _ hx => absurd hx List.not_mem_nil, rfl⟩
  | .leaf name type rest, scope, id, bound, xs, hp, hh, hids => by
    obtain ⟨x, xs, rfl, rfl, hrest⟩ := List.map_eq_cons_iff.1 hids
    obtain ⟨hf, hr⟩ := hh.leaf
    obtain ⟨ihok, iheq⟩ := walk hp.2 hr hrest
    obtain ⟨check, hcheck⟩ := TypeKind.exists_check type.kind_ne
    have hs := fieldStatements_whole hf hcheck rfl
    refine ⟨List.forall_mem_cons.2 ⟨⟨_, hs⟩, ihok⟩, ?_⟩
    rw [List.map_cons, iheq, part_eq hf rfl (scope.extend_name name) rfl hs]
    simp only [Outline.parts, Reading.statements, hcheck]
    rfl
  | .nested name nesting members rest, scope, id, bound, xs, hp, hh, hids => by
    obtain ⟨x, xs, rfl, rfl, hrest⟩ := List.map_eq_cons_iff.1 hids
    obtain ⟨hf, hm, hr⟩ := hh.nested
    obtain ⟨ihok, iheq⟩ := walk hp.2.2.2 hr hrest
    have hstatements : ∃ s, t.fieldStatements x = .ok s ∧
        s = Reading.statements.nested nesting (scope.extend name)
          (members.read .statements t.ignores (nesting.scope (scope.extend name))) := by
      cases nesting with
      | struct =>
        obtain ⟨cs, hcs, hnumbers⟩ :=
          fieldIds_eq_ok (fun _ => .missingChild (scope.extend name)) hm.ids_lt
        obtain ⟨hok, heq⟩ := walk hp.2.2.1 hm hnumbers
        refine ⟨_, fieldStatements_struct hf rfl (Outline.ids_ne_nil hp.2.1) hcs hok, ?_⟩
        rw [heq]
        rfl
      | list => exact ⟨_, fieldStatements_whole hf rfl rfl, rfl⟩
      | map => exact ⟨_, fieldStatements_whole hf rfl rfl, rfl⟩
    obtain ⟨s, hs, hseq⟩ := hstatements
    refine ⟨List.forall_mem_cons.2 ⟨⟨_, hs⟩, ihok⟩, ?_⟩
    rw [List.map_cons, iheq, part_eq hf (nesting.field_path ..) (scope.extend_name name)
      (nesting.field_flags ..) hs, hseq]
    rfl

/-- **The program of a tree is its outline, read as statements.** -/
theorem Outlines.comparison_eq {os : Outline} (h : t.Outlines os) :
    t.comparison = .ok (os.read .statements t.ignores .top) := by
  have hroots : ∀ n ∈ t.roots, 0 ≤ n ∧ n < t.fields.size := by
    rw [h.roots_eq]
    exact h.holds.ids_lt
  obtain ⟨xs, hxs, hnumbers⟩ := fieldIds_eq_ok .missingRoot hroots
  rw [h.roots_eq] at hnumbers
  obtain ⟨hok, heq⟩ := walk h.proper h.holds hnumbers
  obtain ⟨ss, hss, hflat⟩ := compared_mapM hok
  unfold comparison
  rw [hxs]
  show ((compared xs).mapM (fun x => t.fieldStatements x) >>= _) = _
  rw [hss]
  show Except.ok ss.flatten = _
  rw [hflat, heq]
  rfl

end FieldTree

/-! ## Comparisons do not fail -/

/-- Numbers in a tree are those of fields, lead forward, and stand below structs only. -/
structure FieldTree.IsLinked (t : FieldTree) : Prop where
  roots_lt : ∀ n ∈ t.roots, n < t.size
  children_lt : ∀ (n : Nat) (f : Field), t.fields[n]? = some f →
    ∀ c ∈ f.children, n < c ∧ c < t.size
  children_iff : ∀ f ∈ t.fields, f.children ≠ [] ↔ f.kind = .nestedStruct

theorem FieldTree.Outlines.isLinked {t : FieldTree} {os : Outline} (h : t.Outlines os) :
    t.IsLinked := by
  refine ⟨fun n hn => ?_, fun n f hf c hc => ?_, fun f hf => ?_⟩
  · rw [h.roots_eq] at hn
    exact (h.holds.ids_lt n hn).2
  · rw [← Array.getElem?_toList, h.fields_eq] at hf
    have hlt := h.holds.children_lt n f hf c hc
    rw [Nat.zero_add] at hlt
    exact hlt
  · rw [← Array.mem_toList_iff, h.fields_eq] at hf
    exact Outline.children_iff_of_mem_fields h.proper hf

/-- The fragments for a resource are laid out from the outline of its Spec, read as statements. -/
theorem compareResource_eq {resource : Resource} {os : Outline} (h : resource.spec.Outlines os)
    (target : Flavor) (operands : Operands) (indent : Nat) :
    compareResource target resource operands indent =
      .ok ((layout indent (os.read .statements resource.spec.ignores .top)).fill
        (operands.names target)) := by
  unfold compareResource
  rw [h.comparison_eq]
  rfl

/-- Two resources have the same fragments, and they have one under every flavor. -/
def Resource.SameFragments (r r' : Resource) : Prop :=
  ∀ (target : Flavor) (operands : Operands) (indent : Nat), ∃ fragment,
    compareResource target r operands indent = .ok fragment ∧
      compareResource target r' operands indent = .ok fragment

/-- Resources have the same fragments if the outlines of their Specs are read alike. -/
theorem Resource.sameFragments_of_read_eq {r r' : Resource} {os os' : Outline}
    (h : r.spec.Outlines os) (h' : r'.spec.Outlines os')
    (heq : os.read .statements r.spec.ignores .top = os'.read .statements r'.spec.ignores .top) :
    r.SameFragments r' := by
  intro target operands indent
  refine ⟨_, compareResource_eq h target operands indent, ?_⟩
  rw [compareResource_eq h', heq]

/-- **Every resource that has been built can be compared, under every flavor.**  The walk follows
numbers that are those of fields, each step leads to a larger one, and it meets no defect. -/
theorem compareResource_succeeds {definition : ResourceDefinition} {overrides : Overrides}
    {flavor : Flavor} {resource : Resource}
    (h : Resource.build definition overrides flavor = .ok resource) (target : Flavor)
    (operands : Operands) (indent : Nat) :
    resource.spec.IsLinked ∧
      ∃ fragment, compareResource target resource operands indent = .ok fragment := by
  obtain ⟨⟨os, -, hos⟩, -⟩ := Resource.build_outlines h
  exact ⟨hos.isLinked, _, compareResource_eq hos target operands indent⟩

theorem compareResource_succeeds_store : ∃ resource,
    Resource.build storeDefinition storeOverrides .ack = .ok resource ∧ resource.spec.IsLinked ∧
      ∃ fragment, compareResource .crossplane resource .standard 1 = .ok fragment := by
  obtain ⟨resource, h⟩ := build_store
  exact ⟨resource, h, compareResource_succeeds h .crossplane .standard 1⟩

end ResourceDelta
