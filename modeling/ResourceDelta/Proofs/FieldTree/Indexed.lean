import ResourceDelta.FieldTree.Build
import ResourceDelta.FieldTree.Override
import ResourceDelta.Proofs.FieldPath.Ordering
import ResourceDelta.Proofs.FieldPath.Parsing
import ResourceDelta.Proofs.Schema.Outline

/-!
# Outlines as field trees

`Outline.tree` writes an outline down as a field tree: the fields in the order of their definition,
each before the fields below it, and the members of a field by number.  It is a plain recursion
over the outline, so that what holds of the trees of definitions is shown by induction over
outlines.

* `Scope.extend` — the path of a member; two members of one scope have nothing below both of them.
* `Outline.fields` — the fields of an outline that stands in a scope, from a number on.
* `Outline.covers_of_mem_fields` — each is at or below one of the members of the scope.
* `Outline.paths_nodup` — the fields of a proper outline have different paths.
* `Outline.setFlags_tree` — to set flags in a tree is to write it down with other flags.
* `Outline.resolve_tree`, `Outline.contains_tree` — a path leads to the one field that has it, if
  the outline has the path.
* `Outline.mem_paths_of_covers` — with a path, an outline has all those above it.
-/

set_option autoImplicit false

namespace ResourceDelta

/-! ## Scopes -/

namespace Scope

/-- The path of the member with a given name. -/
def extend : Scope → FieldName → FieldPath
  | .top, name => ⟨name, []⟩
  | .struct path, name => path.extend (.member name)
  | .elements path, name => path.extend (.elementMember name)

/-- The segments before the names of the members. -/
def segments : Scope → List Segment
  | .top => []
  | .struct path => path.segments
  | .elements path => path.segments ++ [.element]

theorem segments_extend (scope : Scope) (n : FieldName) :
    (scope.extend n).segments = scope.segments ++ [.field n.text] := by
  cases scope with
  | top => rfl
  | struct path => exact path.segments_extend _
  | elements path =>
    unfold segments
    rw [List.append_assoc]
    exact path.segments_extend _

theorem extend_name (scope : Scope) (n : FieldName) : (scope.extend n).name = n.text := by
  cases scope <;> simp [extend, FieldPath.extend, FieldPath.name, Step.name]

theorem extend_covers_iff {scope : Scope} {n : FieldName} {q : FieldPath} :
    (scope.extend n).Covers q ↔ scope.segments ++ [.field n.text] <+: q.segments := by
  rw [← segments_extend, FieldPath.segments_prefix_iff]

/-- Two members of one scope have nothing below both of them. -/
theorem extend_covers_unique {scope : Scope} {m n : FieldName} {q : FieldPath}
    (hm : (scope.extend m).Covers q) (hn : (scope.extend n).Covers q) : m = n := by
  rw [extend_covers_iff] at hm hn
  have h := (List.prefix_of_prefix_length_le hm hn (by simp)).eq_of_length (by simp)
  have h := List.append_cancel_left h
  simp only [List.cons.injEq, Segment.field.injEq, and_true] at h
  exact FieldName.ext_text h

/-- What is below one of two members comes before what is below the other as their names do. -/
theorem precedes_of_name_lt {scope : Scope} {m n : FieldName} {p q : FieldPath}
    (hp : (scope.extend m).Covers p) (hq : (scope.extend n).Covers q) (h : m.text < n.text) :
    p.Precedes q :=
  FieldPath.precedes_of_segments (extend_covers_iff.1 hp) (extend_covers_iff.1 hq) h

end Scope

/-- The path of a member is that of its name, if this is a field name. -/
theorem Scope.path_eq_ok_iff {scope : Scope} {text : String} {p : FieldPath} :
    scope.path text = .ok p ↔
      ∃ isName : isFieldName text = true, p = scope.extend ⟨text, isName⟩ := by
  have hread : ∀ {index : Nat} {f : FieldName → FieldPath},
      (do let n ← FieldName.read text index; return f n : Except PathError FieldPath) = .ok p ↔
        ∃ isName : isFieldName text = true, p = f ⟨text, isName⟩ := by
    intro index f
    rw [bind_eq_ok]
    constructor
    · rintro ⟨n, hn, hp⟩
      rw [FieldName.read_eq_ok_iff] at hn
      subst hn
      cases hp
      exact ⟨n.isName, rfl⟩
    · rintro ⟨isName, rfl⟩
      exact ⟨⟨text, isName⟩, FieldName.read_text ⟨text, isName⟩ index, rfl⟩
  cases scope with
  | top =>
    show FieldPath.ofName text = .ok p ↔ _
    unfold FieldPath.ofName
    split
    · rename_i h
      subst h
      simp only [reduceCtorEq, false_iff]
      rintro ⟨isName, -⟩
      exact absurd isName (by decide)
    · exact hread
  | struct path => exact hread
  | elements path => exact hread

theorem Nesting.covers_extend (nesting : Nesting) (path : FieldPath) (n : FieldName) :
    path.Covers ((nesting.scope path).extend n) := by
  cases nesting <;> exact path.covers_extend _

theorem Nesting.not_extend_covers (nesting : Nesting) (path : FieldPath) (n : FieldName) :
    ¬ ((nesting.scope path).extend n).Covers path := by
  cases nesting <;> exact path.not_extend_covers _

/-! ## Unique keys -/

/-- Where keys are distinct, the first with a key is the one that has it. -/
theorem find?_eq_some_of_nodup {α κ : Type} [DecidableEq κ] {key : α → κ} {l : List α} {a : α}
    (h : (l.map key).Nodup) (ha : a ∈ l) : l.find? (fun b => key b = key a) = some a := by
  cases hf : l.find? fun b => key b = key a with
  | none =>
    have := List.find?_eq_none.1 hf a ha
    simp at this
  | some b =>
    have hb : key b = key a := by simpa using List.find?_some hf
    rw [List.inj_on_of_nodup_map h (List.mem_of_find?_eq_some hf) ha hb]

/-! ## The fields of an outline -/

/-- A field with members below it. -/
def Nesting.field (nesting : Nesting) (path : FieldPath) (flags : Option FieldFlags)
    (ids : List Nat) : Field :=
  ({ Field.bare path nesting.kind with flags := flags } : Field).withMembers nesting ids

@[simp] theorem Nesting.field_path (nesting : Nesting) (path : FieldPath)
    (flags : Option FieldFlags) (ids : List Nat) : (nesting.field path flags ids).path = path := by
  cases nesting <;> rfl

@[simp] theorem Nesting.field_kind (nesting : Nesting) (path : FieldPath)
    (flags : Option FieldFlags) (ids : List Nat) :
    (nesting.field path flags ids).kind = nesting.kind := by
  cases nesting <;> rfl

@[simp] theorem Nesting.field_flags (nesting : Nesting) (path : FieldPath)
    (flags : Option FieldFlags) (ids : List Nat) :
    (nesting.field path flags ids).flags = flags := by
  cases nesting <;> rfl

namespace Outline

/-- The numbers of the fields of an outline, without those below them, if the first is `id`. -/
def ids : Nat → Outline → List Nat
  | _, .done => []
  | id, .leaf _ _ rest => id :: rest.ids (id + 1)
  | id, .nested _ _ members rest => id :: rest.ids (id + 1 + members.size)

/-- The fields of an outline that stands in a scope, with all below them, if the number of the first
is `id` and overrides say `flags` about the field of a path. -/
def fields (flags : FieldPath → Option FieldFlags) : Scope → Nat → Outline → List Field
  | _, _, .done => []
  | scope, id, .leaf name type rest =>
    let path := scope.extend name
    { Field.bare path type.kind with flags := flags path } :: rest.fields flags scope (id + 1)
  | scope, id, .nested name nesting members rest =>
    let path := scope.extend name
    nesting.field path (flags path) (members.ids (id + 1)) ::
      (members.fields flags (nesting.scope path) (id + 1) ++
        rest.fields flags scope (id + 1 + members.size))

/-- The paths of the fields of an outline that stands in a scope, with all below them. -/
def paths : Scope → Outline → List FieldPath
  | _, .done => []
  | scope, .leaf name _ rest => scope.extend name :: rest.paths scope
  | scope, .nested name nesting members rest =>
    scope.extend name :: (members.paths (nesting.scope (scope.extend name)) ++ rest.paths scope)

/-- An outline as a field tree. -/
def tree (flags : FieldPath → Option FieldFlags) (os : Outline) : FieldTree :=
  ⟨(os.fields flags .top 0).toArray, os.ids 0⟩

theorem length_fields (flags : FieldPath → Option FieldFlags) :
    ∀ (scope : Scope) (id : Nat) (os : Outline), (os.fields flags scope id).length = os.size
  | _, _, .done => rfl
  | scope, id, .leaf _ _ rest => by
    have ih := length_fields flags scope (id + 1) rest
    simp only [fields, size, List.length_cons, ih]
    omega
  | scope, id, .nested name nesting members rest => by
    have ihm := length_fields flags (nesting.scope (scope.extend name)) (id + 1) members
    have ihr := length_fields flags scope (id + 1 + members.size) rest
    simp only [fields, size, List.length_cons, List.length_append, ihm, ihr]
    omega

/-- The paths of the fields depend on the outline alone. -/
theorem map_path_fields (flags : FieldPath → Option FieldFlags) :
    ∀ (scope : Scope) (id : Nat) (os : Outline),
      (os.fields flags scope id).map Field.path = os.paths scope
  | _, _, .done => rfl
  | scope, id, .leaf _ _ rest => by
    have ih := map_path_fields flags scope (id + 1) rest
    simp only [fields, paths, List.map_cons, ih]
    rfl
  | scope, id, .nested name nesting members rest => by
    have ihm := map_path_fields flags (nesting.scope (scope.extend name)) (id + 1) members
    have ihr := map_path_fields flags scope (id + 1 + members.size) rest
    simp only [fields, paths, List.map_cons, List.map_append, ihm, ihr, Nesting.field_path]

/-- The members of the scope are among the fields. -/
theorem extend_mem_paths {scope : Scope} {n : FieldName} :
    ∀ {os : Outline}, n ∈ os.names → scope.extend n ∈ os.paths scope
  | .leaf _ _ _, h => by
    rcases List.mem_cons.1 h with rfl | h
    · exact List.mem_cons_self
    · exact List.mem_cons_of_mem _ (extend_mem_paths h)
  | .nested _ _ _ _, h => by
    rcases List.mem_cons.1 h with rfl | h
    · exact List.mem_cons_self
    · exact List.mem_cons_of_mem _ (List.mem_append_right _ (extend_mem_paths h))

/-- Numbers of fields are in range. -/
theorem ids_range : ∀ {id n : Nat} {os : Outline}, n ∈ os.ids id → id ≤ n ∧ n < id + os.size
  | id, n, .leaf _ _ rest, h => by
    rcases List.mem_cons.1 h with rfl | h
    · simp only [size]
      omega
    · have ih := ids_range h
      simp only [size]
      omega
  | id, n, .nested _ _ members rest, h => by
    rcases List.mem_cons.1 h with rfl | h
    · simp only [size]
      omega
    · have ih := ids_range h
      simp only [size]
      omega

theorem ids_ne_nil {id : Nat} : ∀ {os : Outline}, os ≠ .done → os.ids id ≠ []
  | .done, h => absurd rfl h
  | .leaf .., _ => List.cons_ne_nil _ _
  | .nested .., _ => List.cons_ne_nil _ _

variable {flags : FieldPath → Option FieldFlags}

/-- Every field is at or below one of the members of the scope. -/
theorem covers_of_mem_fields : ∀ {scope : Scope} {id : Nat} {os : Outline} {f : Field},
    f ∈ os.fields flags scope id → ∃ n ∈ os.names, (scope.extend n).Covers f.path
  | scope, id, .leaf name type rest, f, h => by
    rcases List.mem_cons.1 h with rfl | h
    · exact ⟨name, List.mem_cons_self, .refl _⟩
    · obtain ⟨n, hn, hc⟩ := covers_of_mem_fields h
      exact ⟨n, List.mem_cons_of_mem _ hn, hc⟩
  | scope, id, .nested name nesting members rest, f, h => by
    rcases List.mem_cons.1 h with rfl | h
    · refine ⟨name, List.mem_cons_self, ?_⟩
      rw [Nesting.field_path]
      exact .refl _
    · rcases List.mem_append.1 h with h | h
      · obtain ⟨n, -, hc⟩ := covers_of_mem_fields h
        exact ⟨name, List.mem_cons_self, (nesting.covers_extend _ n).trans hc⟩
      · obtain ⟨n, hn, hc⟩ := covers_of_mem_fields h
        exact ⟨n, List.mem_cons_of_mem _ hn, hc⟩

/-- The fields after a member are not at or below it. -/
theorem not_covers_of_mem_fields {scope : Scope} {id : Nat} {os : Outline} {f : Field}
    {name : FieldName} (hname : name ∉ os.names) (h : f ∈ os.fields flags scope id) :
    ¬ (scope.extend name).Covers f.path := by
  intro hc
  obtain ⟨n, hn, hcn⟩ := covers_of_mem_fields h
  rw [Scope.extend_covers_unique hc hcn] at hname
  exact hname hn

/-- Members of a field are strictly below it. -/
theorem below_of_mem_fields {path : FieldPath} {nesting : Nesting} {id : Nat} {os : Outline}
    {f : Field} (h : f ∈ os.fields flags (nesting.scope path) id) :
    path.Covers f.path ∧ path ≠ f.path := by
  obtain ⟨n, -, hc⟩ := covers_of_mem_fields h
  refine ⟨(nesting.covers_extend path n).trans hc, fun he => ?_⟩
  rw [← he] at hc
  exact nesting.not_extend_covers path n hc

/-- What is at or below one member is neither above nor below what comes after it. -/
theorem apart_of_mem_fields {scope : Scope} {name : FieldName} {rest : Outline} {id : Nat}
    {f g : Field} (hname : name ∉ rest.names) (hf : (scope.extend name).Covers f.path)
    (hg : g ∈ rest.fields flags scope id) : ¬ f.path.Covers g.path ∧ ¬ g.path.Covers f.path := by
  constructor
  · intro h
    exact not_covers_of_mem_fields hname hg (hf.trans h)
  · intro h
    obtain ⟨n, hn, hc⟩ := covers_of_mem_fields hg
    rw [Scope.extend_covers_unique hf (hc.trans h)] at hname
    exact hname hn

/-- The fields of a proper outline have different paths. -/
theorem paths_nodup : ∀ {scope : Scope} {id : Nat} {os : Outline}, os.IsProper →
    ((os.fields flags scope id).map Field.path).Nodup
  | _, _, .done, _ => List.nodup_nil
  | scope, id, .leaf name type rest, h => by
    refine List.nodup_cons.2 ⟨fun hm => ?_, paths_nodup h.2⟩
    obtain ⟨f, hf, hp⟩ := List.mem_map.1 hm
    refine not_covers_of_mem_fields h.1 hf ?_
    rw [hp]
    exact .refl _
  | scope, id, .nested name nesting members rest, h => by
    have hbelow : ∀ f ∈ members.fields flags (nesting.scope (scope.extend name)) (id + 1),
        (scope.extend name).Covers f.path ∧ scope.extend name ≠ f.path :=
      fun f hf => below_of_mem_fields hf
    have hrest : ∀ f ∈ rest.fields flags scope (id + 1 + members.size),
        ¬ (scope.extend name).Covers f.path := fun f hf => not_covers_of_mem_fields h.1 hf
    simp only [fields, List.map_cons, List.map_append, Nesting.field_path]
    refine List.nodup_cons.2 ⟨fun hm => ?_, List.nodup_append'.2
      ⟨paths_nodup h.2.2.1, paths_nodup h.2.2.2, fun p hp hq => ?_⟩⟩
    · rcases List.mem_append.1 hm with hm | hm
      · obtain ⟨f, hf, hp⟩ := List.mem_map.1 hm
        exact (hbelow f hf).2 hp.symm
      · obtain ⟨f, hf, hp⟩ := List.mem_map.1 hm
        refine hrest f hf ?_
        rw [hp]
        exact .refl _
    · obtain ⟨f, hf, rfl⟩ := List.mem_map.1 hp
      obtain ⟨g, hg, hgp⟩ := List.mem_map.1 hq
      refine hrest g hg ?_
      rw [hgp]
      exact (hbelow f hf).1

/-- Exactly the structs have children. -/
theorem children_iff_of_mem_fields :
    ∀ {scope : Scope} {id : Nat} {os : Outline} {f : Field}, os.IsProper →
      f ∈ os.fields flags scope id → (f.children ≠ [] ↔ f.kind = .nestedStruct)
  | scope, id, .leaf name type rest, f, hp, hf => by
    rcases List.mem_cons.1 hf with rfl | hf
    · cases type <;> simp [Field.bare, LeafType.kind]
    · exact children_iff_of_mem_fields hp.2 hf
  | scope, id, .nested name nesting members rest, f, hp, hf => by
    rcases List.mem_cons.1 hf with rfl | hf
    · have hne : members.ids (id + 1) ≠ [] := ids_ne_nil hp.2.1
      cases nesting <;> simp [Nesting.field, Field.withMembers, Field.bare, Nesting.kind, hne]
    · rcases List.mem_append.1 hf with hf | hf
      · exact children_iff_of_mem_fields hp.2.2.1 hf
      · exact children_iff_of_mem_fields hp.2.2.2 hf

/-! ## Flags -/

theorem flags_of_mem_fields : ∀ {scope : Scope} {id : Nat} {os : Outline} {f : Field},
    f ∈ os.fields flags scope id → f.flags = flags f.path
  | scope, id, .leaf name type rest, f, h => by
    rcases List.mem_cons.1 h with rfl | h
    · rfl
    · exact flags_of_mem_fields h
  | scope, id, .nested name nesting members rest, f, h => by
    rcases List.mem_cons.1 h with rfl | h
    · rw [Nesting.field_flags, Nesting.field_path]
    · rcases List.mem_append.1 h with h | h
      · exact flags_of_mem_fields h
      · exact flags_of_mem_fields h

/-- The field with a given path, written down with other flags. -/
theorem setFlags_fields (path : FieldPath) (new : FieldFlags) :
    ∀ (scope : Scope) (id : Nat) (os : Outline),
      (os.fields flags scope id).map
          (fun f => if f.path = path then { f with flags := some new } else f) =
        os.fields (fun q => if q = path then some new else flags q) scope id
  | _, _, .done => rfl
  | scope, id, .leaf name type rest => by
    simp only [fields, List.map_cons, setFlags_fields path new scope (id + 1) rest]
    congr 1
    by_cases h : scope.extend name = path <;> simp [Field.bare, h]
  | scope, id, .nested name nesting members rest => by
    simp only [fields, List.map_cons, List.map_append, setFlags_fields path new]
    congr 1
    rw [Nesting.field_path]
    by_cases h : scope.extend name = path
    · rw [if_pos h, if_pos h]
      cases nesting <;> rfl
    · rw [if_neg h, if_neg h]

/-- To set flags in a tree is to write it down with other flags. -/
theorem setFlags_tree (os : Outline) (path : FieldPath) (new : FieldFlags) :
    (os.tree flags).setFlags path new =
      os.tree (fun q => if q = path then some new else flags q) := by
  unfold tree FieldTree.setFlags
  rw [← setFlags_fields path new]
  simp only [List.map_toArray]

/-- Only what is said about fields matters. -/
theorem fields_congr {flags' : FieldPath → Option FieldFlags} :
    ∀ {scope : Scope} {id : Nat} {os : Outline},
      (∀ f ∈ os.fields flags scope id, flags' f.path = flags f.path) →
      os.fields flags' scope id = os.fields flags scope id
  | _, _, .done, _ => rfl
  | scope, id, .leaf name type rest, h => by
    obtain ⟨hf, hr⟩ := List.forall_mem_cons.1 h
    have hflags : flags' (scope.extend name) = flags (scope.extend name) := hf
    simp only [fields, hflags, fields_congr hr]
  | scope, id, .nested name nesting members rest, h => by
    obtain ⟨hf, h⟩ := List.forall_mem_cons.1 h
    obtain ⟨hm, hr⟩ := List.forall_mem_append.1 h
    rw [Nesting.field_path] at hf
    simp only [fields, hf, fields_congr hm, fields_congr hr]

/-! ## Looking up fields -/

theorem mem_tree_fields {os : Outline} {f : Field} :
    f ∈ (os.tree flags).fields ↔ f ∈ os.fields flags .top 0 := by
  simp [tree]

/-- What holds of the paths of all fields holds of the paths of the outline. -/
theorem forall_mem_tree_fields {os : Outline} {P : FieldPath → Prop} :
    (∀ f ∈ (os.tree flags).fields, P f.path) ↔ ∀ p ∈ os.paths .top, P p := by
  simp only [mem_tree_fields, ← map_path_fields flags .top 0, List.forall_mem_map]

/-- A path leads to the one field that has it. -/
theorem resolve_tree {os : Outline} {f : Field} {path : FieldPath} (hp : os.IsProper) :
    (os.tree flags).resolve path = some f ↔ f ∈ (os.tree flags).fields ∧ f.path = path := by
  have hnodup : ((os.fields flags .top 0).map Field.path).Nodup := paths_nodup hp
  rw [mem_tree_fields]
  unfold FieldTree.resolve tree
  rw [List.find?_toArray]
  constructor
  · intro h
    exact ⟨List.mem_of_find?_eq_some h, by simpa using List.find?_some h⟩
  · rintro ⟨hf, rfl⟩
    exact find?_eq_some_of_nodup hnodup hf

theorem contains_tree {os : Outline} {path : FieldPath} :
    (os.tree flags).contains path = true ↔ path ∈ os.paths .top := by
  unfold FieldTree.contains tree
  rw [List.any_toArray, List.any_eq_true, ← map_path_fields flags .top 0, List.mem_map]
  simp only [decide_eq_true_eq]

/-- A path of an outline leads to a field, which has the flags said about it. -/
theorem exists_resolve_tree {os : Outline} {path : FieldPath} (hp : os.IsProper)
    (h : path ∈ os.paths .top) :
    ∃ f, (os.tree flags).resolve path = some f ∧ f.flags = flags path := by
  rw [← map_path_fields flags .top 0] at h
  obtain ⟨f, hf, rfl⟩ := List.mem_map.1 h
  exact ⟨f, (resolve_tree hp).2 ⟨mem_tree_fields.2 hf, rfl⟩, flags_of_mem_fields hf⟩

theorem resolve_tree_eq_none {os : Outline} {path : FieldPath} (h : path ∉ os.paths .top) :
    (os.tree flags).resolve path = none := by
  rw [← map_path_fields flags .top 0] at h
  unfold FieldTree.resolve tree
  rw [List.find?_toArray, List.find?_eq_none]
  intro f hf hpath
  exact h (List.mem_map.2 ⟨f, hf, of_decide_eq_true hpath⟩)

/-- A path leads to some field exactly if the outline has it. -/
theorem isSome_resolve_tree {os : Outline} {path : FieldPath} (hp : os.IsProper) :
    ((os.tree flags).resolve path).isSome = true ↔ path ∈ os.paths .top := by
  constructor
  · intro h
    by_contra hpath
    rw [resolve_tree_eq_none hpath] at h
    cases h
  · intro h
    obtain ⟨f, hf, -⟩ : ∃ f, (os.tree flags).resolve path = some f ∧ f.flags = flags path :=
      exists_resolve_tree hp h
    rw [hf]
    rfl

/-! ## Paths above paths -/

/-- A path of an outline is that of a member of the scope, or it extends another path. -/
theorem paths_cases : ∀ {scope : Scope} {os : Outline} {q : FieldPath}, q ∈ os.paths scope →
    (∃ n, q = scope.extend n) ∨ ∃ p ∈ os.paths scope, ∃ s, q = p.extend s
  | scope, .leaf name _ rest, q, h => by
    rcases List.mem_cons.1 h with rfl | h
    · exact .inl ⟨name, rfl⟩
    · rcases paths_cases h with hq | ⟨p, hp, hq⟩
      · exact .inl hq
      · exact .inr ⟨p, List.mem_cons_of_mem _ hp, hq⟩
  | scope, .nested name nesting members rest, q, h => by
    rcases List.mem_cons.1 h with rfl | h
    · exact .inl ⟨name, rfl⟩
    · rcases List.mem_append.1 h with h | h
      · right
        rcases paths_cases h with ⟨n, rfl⟩ | ⟨p, hp, hq⟩
        · refine ⟨scope.extend name, List.mem_cons_self, ?_⟩
          cases nesting <;> exact ⟨_, rfl⟩
        · exact ⟨p, List.mem_cons_of_mem _ (List.mem_append_left _ hp), hq⟩
      · rcases paths_cases h with hq | ⟨p, hp, hq⟩
        · exact .inl hq
        · exact .inr ⟨p, List.mem_cons_of_mem _ (List.mem_append_right _ hp), hq⟩

/-- With a path, an outline has all those above it. -/
theorem mem_paths_of_covers {os : Outline} {p q : FieldPath} (hq : q ∈ os.paths .top)
    (hc : p.Covers q) : p ∈ os.paths .top := by
  induction q using FieldPath.extend_induction with
  | root n =>
    rw [FieldPath.covers_root_iff.1 hc]
    exact hq
  | extend q s ih =>
    rcases FieldPath.covers_extend_iff.1 hc with rfl | hc
    · exact hq
    · rcases paths_cases hq with ⟨n, hn⟩ | ⟨p', hp', s', hs'⟩
      · exact absurd hn FieldPath.extend_ne_root
      · obtain ⟨rfl, -⟩ := FieldPath.extend_injective hs'
        exact ih hp' hc

end Outline

end ResourceDelta
