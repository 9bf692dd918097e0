import ResourceDelta.Proofs.FieldTree.Indexed

/-!
# The tree of a list of definitions

`FieldTree.build` succeeds with the tree of the outline that the definitions describe, if this is
proper, and fails if there is none: `FieldTree.build_eq_ok_iff`.

* `takeMembers` — the members that a field takes, or what is wrong with their source.
* `insertMembers_cons_eq`, `insertField_nested_eq` and so on — a visit step by step; nothing later
  opens the two functions.
* `insertMembers_cons_iff`, `insertField_leaf_iff`, `insertField_nested_iff` — what a successful
  visit has done.
* `insertMembers_sound` — a successful visit appends the fields of a described outline.
* `insertMembers_complete` — the visit of a list that describes a proper outline succeeds.  A shape
  cannot occur below itself in what has an outline, as the outline of its members would be smaller
  than itself; so the list of visited shapes never stops the visit.
-/

set_option autoImplicit false

namespace ResourceDelta

variable {shapes : ShapeTable} {visiting : List String} {scope : Scope} {fields : Array Field}

/-! ## Steps of a visit -/

/-- The members of a field that lists `own` members and names `shape` are `listed`, and they are
visited inside of the shapes `inside`. -/
inductive Takes (shapes : ShapeTable) (visiting : List String) :
    List FieldDefinition → Option String → List String → List FieldDefinition → Prop
  | own {listed : List FieldDefinition} (nonempty : listed ≠ []) :
      Takes shapes visiting listed none visiting listed
  | shape {name : String} {listed : List FieldDefinition} (unvisited : name ∉ visiting)
      (found : shapes.find? name = some listed) (nonempty : listed ≠ []) :
      Takes shapes visiting [] (some name) (visiting ++ [name]) listed

/-- The members that the field at a path takes and the shapes that they are inside of, or what is
wrong with where they are taken from. -/
def takeMembers (shapes : ShapeTable) (visiting : List String) (path : FieldPath)
    (own : List FieldDefinition) :
    Option String → Except Defect (List String × List FieldDefinition)
  | none => if own.isEmpty then .error (.emptyStruct path) else .ok (visiting, own)
  | some shape =>
    if !own.isEmpty then .error (.ambiguousStruct path)
    else if shape ∈ visiting then .error (.recursiveShape path shape)
    else
      match shapes.find? shape with
      | none => .error (.unresolvedShape path shape)
      | some listed =>
        if listed.isEmpty then .error (.emptyStruct path) else .ok (visiting ++ [shape], listed)

theorem takeMembers_eq_ok_iff {path : FieldPath} {own listed : List FieldDefinition}
    {shape : Option String} {inside : List String} :
    takeMembers shapes visiting path own shape = .ok (inside, listed) ↔
      Takes shapes visiting own shape inside listed := by
  constructor
  · intro h
    cases shape with
    | none =>
      simp only [takeMembers] at h
      split at h
      · cases h
      · rename_i hne
        cases h
        exact .own (by simpa using hne)
    | some s =>
      simp only [takeMembers] at h
      split at h
      · cases h
      rename_i hown
      have hown : own = [] := by simpa using hown
      subst hown
      split at h
      · cases h
      rename_i hnew
      split at h
      · cases h
      rename_i hfound
      split at h
      · cases h
      rename_i hne
      cases h
      exact .shape hnew hfound (by simpa using hne)
  · rintro (hne | ⟨hnew, hfound, hne⟩)
    · simp [takeMembers, hne]
    · simp [takeMembers, hnew, hfound, hne]

theorem any_path_eq_false {path : FieldPath} :
    (fields.any fun f => f.path = path) = false ↔ ∀ f ∈ fields, f.path ≠ path := by
  rw [Array.any_eq_false']
  simp

theorem insertField_of_any {path : FieldPath} {d : FieldDefinition}
    (h : (fields.any fun f => f.path = path) = true) :
    insertField shapes visiting path fields d = .error (.duplicateField path) := by
  rw [insertField.eq_def, if_pos h]

theorem insertField_leaf_iff {path : FieldPath} {name : String} {type : LeafType}
    {after : Array Field} :
    insertField shapes visiting path fields (.leaf name type) = .ok after ↔
      (∀ f ∈ fields, f.path ≠ path) ∧ after = fields.push (.bare path type.kind) := by
  rw [insertField, ← any_path_eq_false]
  cases fields.any fun f => f.path = path with
  | true => simp
  | false => simp [eq_comm]

theorem insertField_nested_eq {path : FieldPath} {name : String} {nesting : Nesting}
    {own : List FieldDefinition} {shape : Option String} :
    insertField shapes visiting path fields (.nested name nesting own shape) =
      if fields.any fun f => f.path = path then .error (.duplicateField path)
      else do
        let (inside, listed) ← takeMembers shapes visiting path own shape
        let (ids, below) ← insertMembers shapes inside (nesting.scope path)
          (fields.push (.bare path nesting.kind)) listed
        return below.modify fields.size (Field.withMembers nesting ids) := by
  rw [insertField]
  congr 1
  cases shape with
  | none =>
    simp only [takeMembers]
    split <;> rfl
  | some s =>
    simp only [takeMembers]
    split
    · rfl
    split
    · rfl
    split
    · rename_i hf
      simp only [hf]
      rfl
    · rename_i hf
      simp only [hf]
      split <;> rfl

theorem insertField_nested_iff {path : FieldPath} {name : String} {nesting : Nesting}
    {own : List FieldDefinition} {shape : Option String} {after : Array Field} :
    insertField shapes visiting path fields (.nested name nesting own shape) = .ok after ↔
      (∀ f ∈ fields, f.path ≠ path) ∧
        ∃ inside listed, Takes shapes visiting own shape inside listed ∧
        ∃ ids below, insertMembers shapes inside (nesting.scope path)
            (fields.push (.bare path nesting.kind)) listed = .ok (ids, below) ∧
          after = below.modify fields.size (Field.withMembers nesting ids) := by
  rw [insertField_nested_eq, ← any_path_eq_false]
  cases fields.any fun f => f.path = path with
  | true => simp
  | false =>
    simp only [Bool.false_eq_true, if_false, true_and, bind_eq_ok]
    constructor
    · rintro ⟨⟨inside, listed⟩, ht, ⟨ids, below⟩, h, hr⟩
      cases hr
      exact ⟨inside, listed, takeMembers_eq_ok_iff.1 ht, ids, below, h, rfl⟩
    · rintro ⟨inside, listed, ht, ids, below, h, rfl⟩
      exact ⟨(inside, listed), takeMembers_eq_ok_iff.2 ht, (ids, below), h, rfl⟩

theorem insertMembers_nil_iff {ids : List Nat} {after : Array Field} :
    insertMembers shapes visiting scope fields [] = .ok (ids, after) ↔
      ids = [] ∧ after = fields := by
  rw [insertMembers]
  simp [eq_comm]

theorem insertMembers_cons_of_error {d : FieldDefinition} {ds : List FieldDefinition}
    {cause : PathError} (h : scope.path d.name = .error cause) :
    insertMembers shapes visiting scope fields (d :: ds) = .error (.invalidName cause) := by
  rw [insertMembers, h]
  rfl

theorem insertMembers_cons_eq {d : FieldDefinition} {ds : List FieldDefinition}
    (isName : isFieldName d.name = true) :
    insertMembers shapes visiting scope fields (d :: ds) = do
      let mid ← insertField shapes visiting (scope.extend ⟨d.name, isName⟩) fields d
      let (ids, after) ← insertMembers shapes visiting scope mid ds
      return (fields.size :: ids, after) := by
  rw [insertMembers, Scope.path_eq_ok_iff.2 ⟨isName, rfl⟩]
  rfl

theorem insertMembers_cons_iff {d : FieldDefinition} {ds : List FieldDefinition} {ids : List Nat}
    {after : Array Field} :
    insertMembers shapes visiting scope fields (d :: ds) = .ok (ids, after) ↔
      ∃ isName mid rest,
        insertField shapes visiting (scope.extend ⟨d.name, isName⟩) fields d = .ok mid ∧
        insertMembers shapes visiting scope mid ds = .ok (rest, after) ∧
        ids = fields.size :: rest := by
  cases hpath : scope.path d.name with
  | error cause =>
    rw [insertMembers_cons_of_error hpath]
    simp only [reduceCtorEq, false_iff]
    rintro ⟨isName, -⟩
    rw [Scope.path_eq_ok_iff.2 ⟨isName, rfl⟩] at hpath
    cases hpath
  | ok path =>
    obtain ⟨isName, -⟩ := Scope.path_eq_ok_iff.1 hpath
    rw [insertMembers_cons_eq isName, bind_eq_ok]
    constructor
    · rintro ⟨mid, hmid, h⟩
      obtain ⟨⟨rest, after'⟩, hrest, h⟩ := bind_eq_ok.1 h
      cases h
      exact ⟨isName, mid, rest, hmid, hrest, rfl⟩
    · rintro ⟨_, mid, rest, hmid, hrest, rfl⟩
      exact ⟨mid, hmid, bind_eq_ok.2 ⟨(rest, after), hrest, rfl⟩⟩

/-! ## What a successful visit appends -/

/-- No overrides. -/
def noFlags : FieldPath → Option FieldFlags := fun _ => none

/-- The visit of `definitions` has appended the fields of `os` to `fields`. -/
structure Visited (shapes : ShapeTable) (scope : Scope) (fields : Array Field)
    (definitions : List FieldDefinition) (os : Outline) (ids : List Nat) (after : Array Field) :
    Prop where
  describes : Describes shapes definitions os
  proper : os.IsProper
  ids_eq : ids = os.ids fields.size
  toList_eq : after.toList = fields.toList ++ os.fields noFlags scope fields.size
  fresh : ∀ n ∈ os.names, ∀ f ∈ fields, f.path ≠ scope.extend n

theorem modify_append_length {α : Type} (l r : List α) (x : α) (f : α → α) :
    (l ++ x :: r).modify l.length f = l ++ f x :: r := by
  induction l with
  | nil => rfl
  | cons y l ih =>
    rw [List.cons_append, List.length_cons, List.modify_succ_cons, ih, List.cons_append]

/-- The fields after a nested field has been visited: the field with its members filled in, then all
that is below it. -/
theorem toList_modify_visited {path : FieldPath} {nesting : Nesting} {after : Array Field}
    {members : Outline}
    (h : after.toList = (fields.push (.bare path nesting.kind)).toList ++
      members.fields noFlags (nesting.scope path) (fields.push (.bare path nesting.kind)).size) :
    (after.modify fields.size
        (Field.withMembers nesting (members.ids (fields.size + 1)))).toList =
      fields.toList ++ nesting.field path none (members.ids (fields.size + 1)) ::
        members.fields noFlags (nesting.scope path) (fields.size + 1) := by
  rw [Array.toList_modify, h, Array.toList_push, List.append_assoc, List.singleton_append,
    Array.size_push, ← Array.length_toList, modify_append_length]
  rfl

section

variable {name : String} {isName : isFieldName name = true} {ds : List FieldDefinition}
  {os : Outline} {ids : List Nat} {after : Array Field}

theorem Visited.leaf {type : LeafType}
    (hnew : ∀ f ∈ fields, f.path ≠ scope.extend ⟨name, isName⟩)
    (hv : Visited shapes scope (fields.push (.bare (scope.extend ⟨name, isName⟩) type.kind)) ds os
      ids after) :
    Visited shapes scope fields (.leaf name type :: ds) (.leaf ⟨name, isName⟩ type os)
      (fields.size :: ids) after := by
  have hids := hv.ids_eq
  have hlist := hv.toList_eq
  rw [Array.size_push] at hids hlist
  refine ⟨.leaf isName hv.describes, ⟨?_, hv.proper⟩, ?_, ?_, ?_⟩
  · intro hn
    exact hv.fresh _ hn _ (Array.mem_push_self) rfl
  · rw [hids]
    rfl
  · rw [hlist, Array.toList_push, List.append_assoc]
    rfl
  · intro n hn f hf
    rcases List.mem_cons.1 hn with rfl | hn
    · exact hnew f hf
    · exact hv.fresh n hn f (Array.mem_push_of_mem _ hf)

theorem Visited.nested {nesting : Nesting} {own listed : List FieldDefinition}
    {shape : Option String} {inside : List String} {ms : Outline} {below : List Nat}
    {inner : Array Field} (hnew : ∀ f ∈ fields, f.path ≠ scope.extend ⟨name, isName⟩)
    (ht : Takes shapes visiting own shape inside listed)
    (hm : Visited shapes (nesting.scope (scope.extend ⟨name, isName⟩))
      (fields.push (.bare (scope.extend ⟨name, isName⟩) nesting.kind)) listed ms below inner)
    (hv : Visited shapes scope (inner.modify fields.size (Field.withMembers nesting below)) ds os
      ids after) :
    Visited shapes scope fields (.nested name nesting own shape :: ds)
      (.nested ⟨name, isName⟩ nesting ms os) (fields.size :: ids) after := by
  have hbelow := hm.ids_eq
  rw [Array.size_push] at hbelow
  subst hbelow
  have hmid := toList_modify_visited hm.toList_eq
  have hsize : (inner.modify fields.size
      (Field.withMembers nesting (ms.ids (fields.size + 1)))).size = fields.size + 1 + ms.size := by
    rw [← Array.length_toList, hmid, List.length_append, List.length_cons, Outline.length_fields,
      Array.length_toList]
    omega
  have hids := hv.ids_eq
  have hlist := hv.toList_eq
  rw [hsize] at hids hlist
  rw [hmid] at hlist
  have hkept : ∀ f ∈ fields, f ∈ inner.modify fields.size
      (Field.withMembers nesting (ms.ids (fields.size + 1))) := by
    intro f hf
    rw [← Array.mem_toList_iff, hmid]
    exact List.mem_append_left _ (Array.mem_toList_iff.2 hf)
  refine ⟨?_, ⟨?_, ?_, hm.proper, hv.proper⟩, ?_, ?_, ?_⟩
  · cases ht with
    | own hne => exact .inPlace isName hne hm.describes hv.describes
    | shape _ hf hne => exact .byShape isName hf hne hm.describes hv.describes
  · intro hn
    refine hv.fresh _ hn (nesting.field (scope.extend ⟨name, isName⟩) none
      (ms.ids (fields.size + 1))) ?_ (Nesting.field_path ..)
    rw [← Array.mem_toList_iff, hmid]
    exact List.mem_append_right _ List.mem_cons_self
  · cases ht with
    | own hne => exact hm.describes.ne_done hne
    | shape _ _ hne => exact hm.describes.ne_done hne
  · rw [hids]
    rfl
  · rw [hlist, List.append_assoc]
    rfl
  · intro n hn f hf
    rcases List.mem_cons.1 hn with rfl | hn
    · exact hnew f hf
    · exact hv.fresh n hn f (hkept f hf)

end

/-- Members that are listed in place are smaller, and a step into a shape leaves fewer unvisited. -/
theorem Takes.decreases {name : String} {nesting : Nesting} {own listed ds : List FieldDefinition}
    {shape : Option String} {inside : List String}
    (h : Takes shapes visiting own shape inside listed) :
    Prod.Lex (· < ·) (· < ·) (unvisited shapes inside, sizeOf listed)
      (unvisited shapes visiting,
        sizeOf (FieldDefinition.nested name nesting own shape :: ds)) := by
  cases h with
  | own =>
    refine .right _ ?_
    simp only [List.cons.sizeOf_spec, FieldDefinition.nested.sizeOf_spec]
    omega
  | shape hs hf => exact .left _ _ (unvisited_append_lt (Table.mem_keys_of_find? hf) hs)

/-- **A successful visit appends the fields of a proper outline that the definitions describe.** -/
theorem insertMembers_sound {visiting : List String} {scope : Scope} {fields : Array Field}
    {definitions : List FieldDefinition} {ids : List Nat} {after : Array Field}
    (h : insertMembers shapes visiting scope fields definitions = .ok (ids, after)) :
    ∃ os, Visited shapes scope fields definitions os ids after := by
  match definitions with
  | [] =>
    obtain ⟨rfl, rfl⟩ := insertMembers_nil_iff.1 h
    exact ⟨.done, .done, trivial, rfl, by simp [Outline.fields], fun n hn => by cases hn⟩
  | .leaf name type :: ds =>
    obtain ⟨isName, mid, rest, hmid, hrest, rfl⟩ := insertMembers_cons_iff.1 h
    obtain ⟨hnew, rfl⟩ := insertField_leaf_iff.1 hmid
    obtain ⟨os, hv⟩ := insertMembers_sound hrest
    exact ⟨_, hv.leaf hnew⟩
  | .nested name nesting own shape :: ds =>
    obtain ⟨isName, mid, rest, hmid, hrest, rfl⟩ := insertMembers_cons_iff.1 h
    obtain ⟨hnew, inside, listed, ht, below, inner, hbelow, rfl⟩ := insertField_nested_iff.1 hmid
    obtain ⟨ms, hm⟩ := insertMembers_sound hbelow
    obtain ⟨os, hv⟩ := insertMembers_sound hrest
    exact ⟨_, .nested hnew ht hm hv⟩
termination_by (unvisited shapes visiting, sizeOf definitions)
decreasing_by
  · exact .right _ (by simp only [List.cons.sizeOf_spec]; omega)
  · exact ht.decreases
  · exact .right _ (by simp only [List.cons.sizeOf_spec]; omega)

/-! ## Which visits succeed -/

/-- Every shape being visited has an outline that is no smaller than `os`. -/
def NoLarger (shapes : ShapeTable) (visiting : List String) (os : Outline) : Prop :=
  ∀ s ∈ visiting, ∀ listed members, shapes.find? s = some listed →
    Describes shapes listed members → os.size ≤ members.size

theorem NoLarger.mono {os os' : Outline} (h : NoLarger shapes visiting os)
    (hle : os'.size ≤ os.size) : NoLarger shapes visiting os' :=
  fun s hs listed members hf hd => Nat.le_trans hle (h s hs listed members hf hd)

/-- A field whose members are not larger than what is being visited takes them. -/
theorem exists_takes {own listed : List FieldDefinition} {shape : Option String} {members : Outline}
    (hsource : (shape = none ∧ own = listed) ∨
      (own = [] ∧ ∃ s, shape = some s ∧ shapes.find? s = some listed))
    (hne : listed ≠ []) (hd : Describes shapes listed members) {bound : Outline}
    (hlt : members.size < bound.size) (hvis : NoLarger shapes visiting bound) :
    ∃ inside, Takes shapes visiting own shape inside listed ∧ NoLarger shapes inside members := by
  rcases hsource with ⟨rfl, rfl⟩ | ⟨rfl, s, rfl, hf⟩
  · exact ⟨visiting, .own hne, hvis.mono (Nat.le_of_lt hlt)⟩
  · -- the shape is not being visited: its outline would have to be as large as what it is part of
    have hs : s ∉ visiting := by
      intro hs
      have := hvis s hs listed members hf hd
      omega
    refine ⟨visiting ++ [s], .shape hs hf hne, fun s' hs' listed' members' hf' hd' => ?_⟩
    rcases List.mem_append.1 hs' with hs' | hs'
    · exact hvis.mono (Nat.le_of_lt hlt) s' hs' listed' members' hf' hd'
    · rw [List.mem_singleton.1 hs', hf] at hf'
      cases hf'
      exact Nat.le_of_eq (congrArg Outline.size (hd.unique hd'))

/-- The visit of a field and of the siblings after it succeeds. -/
theorem insertMembers_nested_complete {name : String} {isName : isFieldName name = true}
    {nesting : Nesting} {own ds : List FieldDefinition} {shape : Option String}
    {members rest : Outline} {listed : List FieldDefinition} {inside : List String}
    (ht : Takes shapes visiting own shape inside listed) (hd : Describes shapes listed members)
    (hfresh : ∀ n ∈ (Outline.nested ⟨name, isName⟩ nesting members rest).names, ∀ f ∈ fields,
      ¬ (scope.extend n).Covers f.path)
    (hname : (⟨name, isName⟩ : FieldName) ∉ rest.names)
    (hbelow : ∀ {scope : Scope} {fields : Array Field},
      (∀ n ∈ members.names, ∀ f ∈ fields, ¬ (scope.extend n).Covers f.path) →
        ∃ ids after, insertMembers shapes inside scope fields listed = .ok (ids, after))
    (hrest : ∀ {fields : Array Field},
      (∀ n ∈ rest.names, ∀ f ∈ fields, ¬ (scope.extend n).Covers f.path) →
        ∃ ids after, insertMembers shapes visiting scope fields ds = .ok (ids, after)) :
    ∃ ids after, insertMembers shapes visiting scope fields
      (.nested name nesting own shape :: ds) = .ok (ids, after) := by
  have hself : ∀ f ∈ fields, ¬ (scope.extend ⟨name, isName⟩).Covers f.path :=
    hfresh _ List.mem_cons_self
  have hinner : ∀ n ∈ members.names,
      ∀ f ∈ fields.push (.bare (scope.extend ⟨name, isName⟩) nesting.kind),
        ¬ ((nesting.scope (scope.extend ⟨name, isName⟩)).extend n).Covers f.path := by
    intro n _ f hf hc
    rcases Array.mem_push.1 hf with hf | rfl
    · exact hself f hf ((nesting.covers_extend _ n).trans hc)
    · exact nesting.not_extend_covers _ n hc
  obtain ⟨below, inner, hin⟩ := hbelow hinner
  obtain ⟨ms, hv⟩ := insertMembers_sound hin
  obtain rfl := hv.describes.unique hd
  have hbids := hv.ids_eq
  rw [Array.size_push] at hbids
  subst hbids
  have hlist := toList_modify_visited hv.toList_eq
  have hafter : ∀ n ∈ rest.names, ∀ f ∈ inner.modify fields.size
      (Field.withMembers nesting (ms.ids (fields.size + 1))), ¬ (scope.extend n).Covers f.path := by
    intro n hn f hf hc
    have hne : n ≠ ⟨name, isName⟩ := fun he => hname (he ▸ hn)
    rw [← Array.mem_toList_iff, hlist] at hf
    rcases List.mem_append.1 hf with hf | hf
    · exact hfresh n (List.mem_cons_of_mem _ hn) f (Array.mem_toList_iff.1 hf) hc
    · refine hne (Scope.extend_covers_unique hc ?_)
      rcases List.mem_cons.1 hf with rfl | hf
      · rw [Nesting.field_path]
        exact .refl _
      · exact (Outline.below_of_mem_fields hf).1
  obtain ⟨ids, after, hr⟩ := hrest hafter
  refine ⟨fields.size :: ids, after, insertMembers_cons_iff.2 ⟨isName, _, ids, ?_, hr, rfl⟩⟩
  refine insertField_nested_iff.2 ⟨fun f hf he => hself f hf ?_, inside, listed, ht, _, inner, hin,
    rfl⟩
  rw [he]
  exact .refl _

/-- **The visit of definitions that describe a proper outline succeeds**, wherever nothing is at or
below the paths of its members yet. -/
theorem insertMembers_complete {definitions : List FieldDefinition} {os : Outline}
    (hd : Describes shapes definitions os) :
    ∀ {visiting : List String} {scope : Scope} {fields : Array Field}, os.IsProper →
      NoLarger shapes visiting os →
      (∀ n ∈ os.names, ∀ f ∈ fields, ¬ (scope.extend n).Covers f.path) →
      ∃ ids after, insertMembers shapes visiting scope fields definitions = .ok (ids, after) := by
  induction hd with
  | done =>
    intro visiting scope fields _ _ _
    exact ⟨[], fields, insertMembers_nil_iff.2 ⟨rfl, rfl⟩⟩
  | @leaf name type ds rest isName _ ih =>
    intro visiting scope fields hp hvis hfresh
    have hself : ∀ f ∈ fields, ¬ (scope.extend ⟨name, isName⟩).Covers f.path :=
      hfresh _ List.mem_cons_self
    have hafter : ∀ n ∈ rest.names,
        ∀ f ∈ fields.push (.bare (scope.extend ⟨name, isName⟩) type.kind),
        ¬ (scope.extend n).Covers f.path := by
      intro n hn f hf hc
      rcases Array.mem_push.1 hf with hf | rfl
      · exact hfresh n (List.mem_cons_of_mem _ hn) f hf hc
      · exact hp.1 (Scope.extend_covers_unique (.refl _) hc ▸ hn)
    obtain ⟨ids, after, hr⟩ := ih hp.2 (hvis.mono (by simp only [Outline.size]; omega)) hafter
    refine ⟨fields.size :: ids, after, insertMembers_cons_iff.2 ⟨isName, _, ids, ?_, hr, rfl⟩⟩
    refine insertField_leaf_iff.2 ⟨fun f hf he => hself f hf ?_, rfl⟩
    rw [he]
    exact .refl _
  | @inPlace name nesting listed ds members rest isName nonempty below _ ihb ihr =>
    intro visiting scope fields hp hvis hfresh
    obtain ⟨inside, ht, hin⟩ := exists_takes (.inl ⟨rfl, rfl⟩) nonempty below
      (by simp only [Outline.size]; omega) hvis
    exact insertMembers_nested_complete ht below hfresh hp.1 (ihb hp.2.2.1 hin)
      (ihr hp.2.2.2 (hvis.mono (by simp only [Outline.size]; omega)))
  | @byShape name s nesting listed ds members rest isName found nonempty below _ ihb ihr =>
    intro visiting scope fields hp hvis hfresh
    obtain ⟨inside, ht, hin⟩ := exists_takes (.inr ⟨rfl, s, rfl, found⟩) nonempty below
      (by simp only [Outline.size]; omega) hvis
    exact insertMembers_nested_complete ht below hfresh hp.1 (ihb hp.2.2.1 hin)
      (ihr hp.2.2.2 (hvis.mono (by simp only [Outline.size]; omega)))

/-- **A tree is built exactly if it is that of the proper outline of the definitions.** -/
theorem FieldTree.build_eq_ok_iff {definitions : List FieldDefinition} {t : FieldTree} :
    FieldTree.build shapes definitions = .ok t ↔
      ∃ os, Describes shapes definitions os ∧ os.IsProper ∧ t = os.tree noFlags := by
  unfold FieldTree.build
  rw [bind_eq_ok]
  constructor
  · rintro ⟨⟨ids, after⟩, h, ht⟩
    cases ht
    obtain ⟨os, hv⟩ := insertMembers_sound h
    refine ⟨os, hv.describes, hv.proper, ?_⟩
    rw [hv.ids_eq, ← after.toArray_toList, hv.toList_eq]
    rfl
  · rintro ⟨os, hd, hp, rfl⟩
    have hvis : NoLarger shapes [] os := fun s hs => by cases hs
    have hfresh : ∀ n ∈ os.names, ∀ f ∈ (#[] : Array Field), ¬ (Scope.top.extend n).Covers f.path :=
      fun n _ f hf => absurd hf (Array.not_mem_empty f)
    obtain ⟨ids, after, h⟩ := insertMembers_complete hd hp hvis hfresh
    obtain ⟨os', hv⟩ := insertMembers_sound h
    obtain rfl := hv.describes.unique hd
    refine ⟨(ids, after), h, ?_⟩
    rw [hv.ids_eq, ← after.toArray_toList, hv.toList_eq]
    rfl

end ResourceDelta
