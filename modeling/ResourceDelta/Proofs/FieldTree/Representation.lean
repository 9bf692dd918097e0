import Mathlib
import ResourceDelta.Proofs.FieldPath.FirstDefect
import ResourceDelta.Proofs.FieldTree.Attaching
import ResourceDelta.Proofs.FieldTree.Preorder
import ResourceDelta.Proofs.FieldTree.Standing

/-!
# What holds of every field tree

Whatever overrides are attached to the tree of a list of definitions, paths and numbers keep their
meaning in it.

* `FieldTree.Represents` — a tree holds the fields of a list of definitions: how it is addressed by
  paths, how numbers link its fields, and in which order these stand.
* `Outline.exists_owner` — a number belongs to a top-level field or to a member of some field.
* `Outline.tree_represents` — the tree of an outline represents the definitions that describe it.
* `build_represents` — so does every tree that is built from definitions, after any calls that
  attach overrides.
-/

set_option autoImplicit false

namespace ResourceDelta

/-- The name of the field with a number. -/
def FieldTree.nameAt (t : FieldTree) (n : Nat) : Option String :=
  t.fields[n]?.map Field.name

/-- The tree holds the fields that a list of definitions describes. -/
structure FieldTree.Represents (t : FieldTree) (shapes : ShapeTable)
    (definitions : List FieldDefinition) : Prop where
  /-- A path leads to the field that has it. -/
  resolve_iff : ∀ (p : FieldPath) (f : Field), t.resolve p = some f ↔ f ∈ t.fields ∧ f.path = p
  /-- No two fields have the same path. -/
  distinct : (t.fields.toList.map Field.path).Nodup
  /-- Paths start and end with a name, have no two wildcards in a row, and hold valid names. -/
  canonical : ∀ f ∈ t.fields, IsCanonical f.path.segments
  /-- Each number below that of all fields, and no other, occurs once among the numbers of top-level
  fields, children and element members. -/
  numbered : (t.roots ++ t.fields.toList.flatMap Field.members).Perm (List.range t.size)
  /-- Top-level fields are those with one segment. -/
  roots_iff : ∀ (n : Nat) (f : Field), t.fields[n]? = some f →
    (n ∈ t.roots ↔ f.path.segments.length = 1)
  /-- Children of a field are those whose path is the field's and a name. -/
  children_iff : ∀ (n : Nat) (f : Field) (m : Nat) (g : Field),
    t.fields[n]? = some f → t.fields[m]? = some g →
      (n ∈ g.children ↔ ∃ name, f.path.segments = g.path.segments ++ [.field name])
  /-- Element members of a field are those whose path is the field's, a wildcard and a name. -/
  elementMembers_iff : ∀ (n : Nat) (f : Field) (m : Nat) (g : Field),
    t.fields[n]? = some f → t.fields[m]? = some g →
      (n ∈ g.elementMembers ↔
        ∃ name, f.path.segments = g.path.segments ++ [.element, .field name])
  /-- The parent of either has the field's path. -/
  parent_eq : ∀ (n : Nat) (f : Field) (m : Nat) (g : Field),
    t.fields[n]? = some f → t.fields[m]? = some g →
      n ∈ g.members → f.path.parent = some g.path
  /-- Exactly the structs have children. -/
  children_ne_nil : ∀ f ∈ t.fields, f.children ≠ [] ↔ f.kind = .nestedStruct
  /-- Exactly the lists and maps of structs have element members. -/
  elementMembers_ne_nil : ∀ f ∈ t.fields,
    f.elementMembers ≠ [] ↔ f.kind = .listOfStruct ∨ f.kind = .mapOfStruct
  /-- Top-level fields stand in the order of their definition. -/
  roots_ordered : t.roots.map t.nameAt = definitions.map (some ·.name) ∧ t.roots.Pairwise (· < ·)
  /-- The members of each field stand in the order in which the definition that the field's path
  leads to has them. -/
  members_ordered : ∀ (n : Nat) (f : Field), t.fields[n]? = some f →
    ∃ d, LeadsTo shapes .top definitions f.path d ∧ f.kind = d.kind ∧
      f.members.map t.nameAt = (d.membersIn shapes).map (some ·.name) ∧
      f.members.Pairwise (· < ·)
  /-- The fields below a field are those that come directly after it, up to some number. -/
  preorder : ∀ (n : Nat) (f : Field), t.fields[n]? = some f →
    ∃ k, n + k < t.size ∧ ∀ (m : Nat) (g : Field), t.fields[m]? = some g →
      (g.path.isBelow f.path = true ↔ n < m ∧ m ≤ n + k)

/-! ## Paths of members -/

namespace FieldPath

/-- A path with the segments of a step after those of another extends that path. -/
theorem eq_extend_iff {p q : FieldPath} {s : Step} :
    p = q.extend s ↔ p.segments = q.segments ++ s.segments := by
  rw [← segments_extend]
  exact ⟨fun h => h ▸ rfl, segments_injective⟩

theorem exists_member_iff {p q : FieldPath} :
    (∃ n, p = q.extend (.member n)) ↔ ∃ name, p.segments = q.segments ++ [.field name] := by
  constructor
  · rintro ⟨n, h⟩
    exact ⟨n.text, eq_extend_iff.1 h⟩
  · rintro ⟨name, h⟩
    have hname : IsIdentifier name := p.segments_canonical.named name (by simp [h])
    exact ⟨⟨name, isFieldName_iff.2 hname⟩, eq_extend_iff.2 h⟩

theorem exists_elementMember_iff {p q : FieldPath} :
    (∃ n, p = q.extend (.elementMember n)) ↔
      ∃ name, p.segments = q.segments ++ [.element, .field name] := by
  constructor
  · rintro ⟨n, h⟩
    exact ⟨n.text, eq_extend_iff.1 h⟩
  · rintro ⟨name, h⟩
    have hname : IsIdentifier name := p.segments_canonical.named name (by simp [h])
    exact ⟨⟨name, isFieldName_iff.2 hname⟩, eq_extend_iff.2 h⟩

theorem length_segments_eq_one_iff {p : FieldPath} :
    p.segments.length = 1 ↔ ∃ n, p = ⟨n, []⟩ := by
  constructor
  · intro h
    obtain ⟨root, steps⟩ := p
    cases steps with
    | nil => exact ⟨root, rfl⟩
    | cons s steps => cases s <;> simp [segments, Step.segments] at h
  · rintro ⟨n, rfl⟩
    rfl

end FieldPath

/-! ## Members of a field that stands in a tree -/

namespace FieldTree

variable {t : FieldTree} {flags : FieldPath → Option FieldFlags} {shapes : ShapeTable}
  {n m : Nat} {f g : Field} {d : FieldDefinition}

theorem Holds.path_of_mem_ids {scope : Scope} {id : Nat} {os : Outline}
    (h : t.Holds flags scope id os) (hn : n ∈ os.ids id) (hf : t.fields[n]? = some f) :
    ∃ name, f.path = scope.extend name := by
  have hmem : t.fields[n]?.map Field.path ∈ os.names.map fun name => some (scope.extend name) := by
    rw [← h.paths_eq]
    exact List.mem_map_of_mem hn
  obtain ⟨name, -, hname⟩ := List.mem_map.1 hmem
  rw [hf] at hname
  exact ⟨name, (Option.some.inj hname).symm⟩

theorem Holds.names_eq {scope : Scope} {id : Nat} {os : Outline}
    {definitions : List FieldDefinition} (h : t.Holds flags scope id os)
    (hd : Describes shapes definitions os) :
    (os.ids id).map t.nameAt = definitions.map (some ·.name) := by
  have hname : t.nameAt = fun n => (t.fields[n]?.map Field.path).map FieldPath.name := by
    funext n
    unfold nameAt
    cases t.fields[n]? <;> rfl
  calc (os.ids id).map t.nameAt
      = ((os.ids id).map fun n => t.fields[n]?.map Field.path).map (Option.map FieldPath.name) := by
        rw [List.map_map, hname]
        rfl
    _ = os.names.map fun n => some n.text := by
        rw [h.paths_eq, List.map_map]
        exact List.map_congr_left fun n _ => congrArg some (scope.extend_name n)
    _ = definitions.map (some ·.name) := by
        have hnames := congrArg (List.map some) hd.names_eq
        rw [List.map_map, List.map_map] at hnames
        exact hnames.symm

theorem Stands.path_of_child (h : t.Stands flags shapes m g d) (hn : n ∈ g.children)
    (hf : t.fields[n]? = some f) : ∃ name, f.path = g.path.extend (.member name) := by
  cases h with
  | leaf => cases hn
  | @nested _ nesting _ _ _ _ _ _ _ holds =>
    rw [Nesting.field_path]
    cases nesting with
    | struct => exact holds.path_of_mem_ids hn hf
    | list => cases hn
    | map => cases hn

theorem Stands.path_of_elementMember (h : t.Stands flags shapes m g d) (hn : n ∈ g.elementMembers)
    (hf : t.fields[n]? = some f) : ∃ name, f.path = g.path.extend (.elementMember name) := by
  cases h with
  | leaf => cases hn
  | @nested _ nesting _ _ _ _ _ _ _ holds =>
    rw [Nesting.field_path]
    cases nesting with
    | struct => cases hn
    | list => exact holds.path_of_mem_ids hn hf
    | map => exact holds.path_of_mem_ids hn hf

theorem Stands.path_of_member (h : t.Stands flags shapes m g d) (hn : n ∈ g.members)
    (hf : t.fields[n]? = some f) : ∃ s, f.path = g.path.extend s := by
  rcases List.mem_append.1 hn with hn | hn
  · obtain ⟨name, hname⟩ := h.path_of_child hn hf
    exact ⟨_, hname⟩
  · obtain ⟨name, hname⟩ := h.path_of_elementMember hn hf
    exact ⟨_, hname⟩

theorem Stands.elementMembers_ne_nil (h : t.Stands flags shapes n f d) :
    f.elementMembers ≠ [] ↔ f.kind = .listOfStruct ∨ f.kind = .mapOfStruct := by
  cases h with
  | @leaf _ type => cases type <;> simp [Field.bare, LeafType.kind]
  | @nested _ nesting _ members _ _ _ _ nonempty =>
    have hne : members.ids (n + 1) ≠ [] := Outline.ids_ne_nil nonempty
    cases nesting <;> simp [Nesting.field, Field.withMembers, Field.bare, Nesting.kind, hne]

theorem Stands.members_ordered (h : t.Stands flags shapes n f d) :
    f.kind = d.kind ∧ f.members.map t.nameAt = (d.membersIn shapes).map (some ·.name) ∧
      f.members.Pairwise (· < ·) := by
  cases h with
  | leaf => exact ⟨rfl, rfl, .nil⟩
  | nested kind described _ _ holds =>
    rw [Nesting.field_kind, Nesting.field_members]
    exact ⟨kind.symm, holds.names_eq described, Outline.ids_ascending _ _⟩

end FieldTree

/-! ## The tree of an outline -/

namespace Outline

variable {os : Outline} {flags : FieldPath → Option FieldFlags} {shapes : ShapeTable}
  {definitions : List FieldDefinition} {n m : Nat} {f g : Field}

theorem getElem?_tree : (os.tree flags).fields[n]? = (os.fields flags .top 0)[n]? := by
  simp [tree]

/-- A number belongs to a top-level field or to a member of some field. -/
theorem exists_owner (hf : (os.tree flags).fields[n]? = some f) :
    n ∈ (os.tree flags).roots ∨
      ∃ (m : Nat) (g : Field), (os.tree flags).fields[m]? = some g ∧ n ∈ g.members := by
  have hlt : n < os.size := by
    rw [getElem?_tree] at hf
    rw [← length_fields flags .top 0 os]
    exact (List.getElem?_eq_some_iff.1 hf).1
  have hmem : n ∈ List.range' 0 os.size := by
    rw [List.mem_range'_1]
    omega
  rw [← (numbers_perm flags .top 0 os).mem_iff] at hmem
  rcases List.mem_append.1 hmem with h | h
  · exact .inl h
  · obtain ⟨g, hg, hn⟩ := List.mem_flatMap.1 h
    obtain ⟨m, hm⟩ := List.getElem?_of_mem hg
    exact .inr ⟨m, g, by rw [getElem?_tree]; exact hm, hn⟩

theorem field_unique (hp : os.IsProper) (hf : (os.tree flags).fields[n]? = some f)
    (hg : (os.tree flags).fields[m]? = some g) (h : f.path = g.path) : f = g := by
  rw [getElem?_tree] at hf hg
  have hnodup : ((os.fields flags .top 0).map Field.path).Nodup := paths_nodup hp
  exact List.inj_on_of_nodup_map hnodup (List.mem_of_getElem? hf) (List.mem_of_getElem? hg) h

theorem exists_stands (hd : Describes shapes definitions os) (hp : os.IsProper)
    (hf : (os.tree flags).fields[n]? = some f) :
    ∃ d, LeadsTo shapes .top definitions f.path d ∧ (os.tree flags).Stands flags shapes n f d := by
  rw [getElem?_tree] at hf
  have hh : (os.tree flags).Holds flags .top 0 os := FieldTree.holds_tree os
  obtain ⟨d, hl, hs⟩ := hh.stands hd hp hf
  rw [Nat.zero_add] at hs
  exact ⟨d, hl, hs⟩

theorem path_of_mem_roots (hn : n ∈ (os.tree flags).roots)
    (hf : (os.tree flags).fields[n]? = some f) : ∃ name, f.path = ⟨name, []⟩ :=
  (FieldTree.holds_tree os).path_of_mem_ids hn hf

/-- The number of a field whose path extends another's is that of a member of the other. -/
theorem mem_members_of_extend (hd : Describes shapes definitions os) (hp : os.IsProper)
    (hf : (os.tree flags).fields[n]? = some f) (hg : (os.tree flags).fields[m]? = some g)
    {s : Step} (h : f.path = g.path.extend s) :
    n ∈ if s.entersElements then g.elementMembers else g.children := by
  rcases exists_owner hf with hroot | ⟨m', g', hg', hn⟩
  · obtain ⟨name, hname⟩ := path_of_mem_roots hroot hf
    exact absurd (h.symm.trans hname) FieldPath.extend_ne_root
  · obtain ⟨d, -, hs⟩ := exists_stands hd hp hg'
    rcases List.mem_append.1 hn with hn | hn
    · obtain ⟨name, hname⟩ := hs.path_of_child hn hf
      obtain ⟨hpath, rfl⟩ := FieldPath.extend_injective (h.symm.trans hname)
      rw [field_unique hp hg hg' hpath]
      exact hn
    · obtain ⟨name, hname⟩ := hs.path_of_elementMember hn hf
      obtain ⟨hpath, rfl⟩ := FieldPath.extend_injective (h.symm.trans hname)
      rw [field_unique hp hg hg' hpath]
      exact hn

/-- **The tree of an outline represents the definitions that describe it.** -/
theorem tree_represents (hd : Describes shapes definitions os) (hp : os.IsProper) :
    (os.tree flags).Represents shapes definitions where
  resolve_iff p f := resolve_tree hp
  distinct := paths_nodup hp
  canonical f _ := f.path.segments_canonical
  numbered := by
    have hperm := numbers_perm flags .top 0 os
    rw [← List.range_eq_range'] at hperm
    have hsize : (os.tree flags).size = os.size := by
      simp [FieldTree.size, tree, length_fields]
    rw [hsize]
    exact hperm
  roots_iff n f hf := by
    rw [FieldPath.length_segments_eq_one_iff]
    constructor
    · intro hn
      exact path_of_mem_roots hn hf
    · rintro ⟨name, hname⟩
      rcases exists_owner hf with hroot | ⟨m, g, hg, hn⟩
      · exact hroot
      · obtain ⟨d, -, hs⟩ := exists_stands hd hp hg
        obtain ⟨s, h⟩ := hs.path_of_member hn hf
        exact absurd (h.symm.trans hname) FieldPath.extend_ne_root
  children_iff n f m g hf hg := by
    rw [← FieldPath.exists_member_iff]
    obtain ⟨d, -, hs⟩ := exists_stands hd hp hg
    constructor
    · intro hn
      exact hs.path_of_child hn hf
    · rintro ⟨name, h⟩
      exact mem_members_of_extend hd hp hf hg h
  elementMembers_iff n f m g hf hg := by
    rw [← FieldPath.exists_elementMember_iff]
    obtain ⟨d, -, hs⟩ := exists_stands hd hp hg
    constructor
    · intro hn
      exact hs.path_of_elementMember hn hf
    · rintro ⟨name, h⟩
      exact mem_members_of_extend hd hp hf hg h
  parent_eq n f m g hf hg hn := by
    obtain ⟨d, -, hs⟩ := exists_stands hd hp hg
    obtain ⟨s, h⟩ := hs.path_of_member hn hf
    rw [h, FieldPath.parent_extend]
  children_ne_nil f hf := children_iff_of_mem_fields hp (mem_tree_fields.1 hf)
  elementMembers_ne_nil f hf := by
    obtain ⟨n, hn⟩ := Array.getElem?_of_mem hf
    obtain ⟨d, -, hs⟩ := exists_stands hd hp hn
    exact hs.elementMembers_ne_nil
  roots_ordered := ⟨(FieldTree.holds_tree os).names_eq hd, ids_ascending 0 os⟩
  members_ordered n f hf := by
    obtain ⟨d, hl, hs⟩ := exists_stands hd hp hf
    exact ⟨d, hl, hs.members_ordered⟩
  preorder n f hf := by
    rw [getElem?_tree] at hf
    obtain ⟨k, hk, hiff⟩ := isFollowedByBelow_fields hp hf
    refine ⟨k, hk, fun m g hg => hiff m g ?_⟩
    rw [← getElem?_tree]
    exact hg

end Outline

/-! ## The main result -/

/-- **Every tree that is built represents its definitions, and attaching overrides keeps it so**,
whether the calls are accepted or rejected. -/
theorem build_represents {shapes : ShapeTable} {definitions : List FieldDefinition} {t : FieldTree}
    (h : FieldTree.build shapes definitions = .ok t) (calls : List (FieldPath × FieldFlags)) :
    (t.attachEach calls).Represents shapes definitions := by
  obtain ⟨os, hd, hp, rfl⟩ := FieldTree.build_eq_ok_iff.1 h
  obtain ⟨flags, hflags⟩ := Outline.attachEach_tree noFlags hp calls
  rw [hflags]
  exact Outline.tree_represents hd hp

/-- Rules are taken from a shape that nests a struct. -/
def ruleShapes : ShapeTable :=
  .ofList [("Rule", [.scalar "id" .string, .struct "scope" [.scalar "key" .string]])]

/-- Elements of a list and values of a map that have one shape. -/
def ruleDefinitions : List FieldDefinition :=
  [.nested "rules" .list [] (some "Rule"), .bytes "digest",
    .nested "byName" .map [] (some "Rule")]

/-- A call that is accepted, one that makes a conflict, and one that leads to no field. -/
def ruleCalls : List (FieldPath × FieldFlags) :=
  [(⟨⟨"digest", by decide⟩, []⟩, .confidential), (⟨⟨"digest", by decide⟩, []⟩, .ignored),
    (⟨⟨"missing", by decide⟩, []⟩, .ignored)]

theorem build_represents_rules : ∃ t, FieldTree.build ruleShapes ruleDefinitions = .ok t ∧
    (t.attachEach ruleCalls).Represents ruleShapes ruleDefinitions := by
  have hok : (FieldTree.build ruleShapes ruleDefinitions).isOk = true := by cbv
  cases h : FieldTree.build ruleShapes ruleDefinitions with
  | ok t => exact ⟨t, rfl, build_represents h ruleCalls⟩
  | error e =>
    rw [h] at hok
    cases hok

end ResourceDelta
