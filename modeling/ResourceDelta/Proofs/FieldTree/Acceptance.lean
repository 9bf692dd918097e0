import ResourceDelta.Proofs.FieldTree.Building

/-!
# Which definitions are accepted

A tree is built exactly for definitions that describe a finite, well-named tree.  This is said about
what can be reached from the definitions, not about the visit that builds the tree:

* `Reachable` — the member lists that are reached from a list of definitions, in place or by shape.
* `WellFormed` — names are field names and different among siblings, every nested field has one
  source of members, every shape that is named has some, and none leads back to itself.
* `wellFormed_iff_outline` — well-formed definitions are those that describe a proper outline.
* `build_succeeds_iff_wellFormed` — they are those from which a tree is built, and shapes that are
  not reached do not matter.
-/

set_option autoImplicit false

namespace ResourceDelta

/-! ## What is reached -/

/-- `listed` is the list of definitions itself, or below a field of a list that is reached. -/
inductive Reachable (shapes : ShapeTable) (definitions : List FieldDefinition) :
    List FieldDefinition → Prop
  | top : Reachable shapes definitions definitions
  | step {listed inner : List FieldDefinition} {d : FieldDefinition}
      (reached : Reachable shapes definitions listed) (mem : d ∈ listed)
      (nests : Nests shapes d inner) : Reachable shapes definitions inner

/-- The shape that a field names. -/
def FieldDefinition.shape? : FieldDefinition → Option String
  | .leaf _ _ => none
  | .nested _ _ _ shape => shape

/-- A field that is reached from the definitions names the shape. -/
def Mentions (shapes : ShapeTable) (definitions : List FieldDefinition) (shape : String) : Prop :=
  ∃ listed, Reachable shapes definitions listed ∧ ∃ d ∈ listed, d.shape? = some shape

/-- A field that is reached from the members of one shape names the other. -/
def RefersTo (shapes : ShapeTable) (shape other : String) : Prop :=
  ∃ listed, shapes.find? shape = some listed ∧ Mentions shapes listed other

/-- The definitions describe a finite, well-named tree. -/
structure WellFormed (shapes : ShapeTable) (definitions : List FieldDefinition) : Prop where
  /-- The names in a list are field names. -/
  named : ∀ listed, Reachable shapes definitions listed → ∀ d ∈ listed, IsIdentifier d.name
  /-- The names in a list are pairwise distinct. -/
  distinct : ∀ listed, Reachable shapes definitions listed →
    (listed.map FieldDefinition.name).Nodup
  /-- A field that nests others lists them or names a shape, and not both. -/
  sourced : ∀ listed, Reachable shapes definitions listed → ∀ name nesting own shape,
    .nested name nesting own shape ∈ listed →
      (∃ s, shape = some s ∧ own = []) ∨ (shape = none ∧ own ≠ [])
  /-- A shape that is named has members. -/
  resolved : ∀ s, Mentions shapes definitions s →
    ∃ listed, shapes.find? s = some listed ∧ listed ≠ []
  /-- A shape that is named does not lead back to itself. -/
  acyclic : ∀ s, Mentions shapes definitions s → ¬ RefersTo shapes s s

variable {shapes : ShapeTable} {definitions listed : List FieldDefinition} {os : Outline}

theorem Reachable.trans {inner : List FieldDefinition} (h : Reachable shapes definitions listed)
    (h' : Reachable shapes listed inner) : Reachable shapes definitions inner := by
  induction h' with
  | top => exact h
  | step _ mem nests ih => exact ih.step mem nests

theorem Mentions.of_reachable {s : String} (h : Reachable shapes definitions listed)
    (hm : Mentions shapes listed s) : Mentions shapes definitions s := by
  obtain ⟨inner, hr, hd⟩ := hm
  exact ⟨inner, h.trans hr, hd⟩

/-- What the later definitions of a list name, the list names. -/
theorem Mentions.cons {s : String} {d : FieldDefinition} (h : Mentions shapes definitions s) :
    Mentions shapes (d :: definitions) s := by
  have hreach : ∀ {listed}, Reachable shapes definitions listed →
      listed = definitions ∨ Reachable shapes (d :: definitions) listed := by
    intro listed hr
    induction hr with
    | top => exact .inl rfl
    | step _ mem nests ih =>
      rcases ih with rfl | ih
      · exact .inr (.step .top (List.mem_cons_of_mem _ mem) nests)
      · exact .inr (ih.step mem nests)
  obtain ⟨listed, hr, d', hd, hs⟩ := h
  rcases hreach hr with rfl | hr
  · exact ⟨_, .top, d', List.mem_cons_of_mem _ hd, hs⟩
  · exact ⟨listed, hr, d', hd, hs⟩

/-! ## Described definitions are well-formed -/

/-- What is reached from a described list is described by an outline that is not larger. -/
theorem Describes.of_reachable (h : Describes shapes definitions os)
    (hr : Reachable shapes definitions listed) :
    ∃ os', Describes shapes listed os' ∧ os'.size ≤ os.size ∧ (os.IsProper → os'.IsProper) := by
  induction hr with
  | top => exact ⟨os, h, Nat.le_refl _, id⟩
  | step _ mem nests ih =>
    obtain ⟨os', hd, hle, hp⟩ := ih
    obtain ⟨members, hm, hlt, hp'⟩ := hd.below_of_mem mem nests
    exact ⟨members, hm, by omega, fun h => hp' (hp h)⟩

/-- A shape that is named in a described list has a smaller outline. -/
theorem Describes.of_shape {s : String} (h : Describes shapes definitions os)
    (hm : Mentions shapes definitions s) :
    ∃ listed members, shapes.find? s = some listed ∧ listed ≠ [] ∧
      Describes shapes listed members ∧ members.size < os.size := by
  obtain ⟨inner, hr, d, hd, hs⟩ := hm
  obtain ⟨os', ho, hle, -⟩ := h.of_reachable hr
  cases d with
  | leaf => cases hs
  | nested name nesting own shape =>
    cases hs
    rcases ho.source_of_mem hd with ⟨hnone, -⟩ | ⟨-, s', listed, hs', hf, hne⟩
    · cases hnone
    · cases hs'
      obtain ⟨members, hm, hlt, -⟩ := ho.below_of_mem hd (.byShape hf)
      exact ⟨listed, members, hf, hne, hm, by omega⟩

theorem WellFormed.of_outline (h : Describes shapes definitions os) (hp : os.IsProper) :
    WellFormed shapes definitions where
  named listed hr d hd := by
    obtain ⟨os', ho, -⟩ := h.of_reachable hr
    exact isFieldName_iff.1 (ho.isFieldName_of_mem hd)
  distinct listed hr := by
    obtain ⟨os', ho, -, hp'⟩ := h.of_reachable hr
    exact ho.nodup_names_iff.2 (hp' hp).names_nodup
  sourced listed hr name nesting own shape hd := by
    obtain ⟨os', ho, -⟩ := h.of_reachable hr
    rcases ho.source_of_mem hd with ⟨hs, hne⟩ | ⟨hown, s, ms, hs, -, -⟩
    · exact .inr ⟨hs, hne⟩
    · exact .inl ⟨s, hs, hown⟩
  resolved s hm := by
    obtain ⟨listed, members, hf, hne, -⟩ := h.of_shape hm
    exact ⟨listed, hf, hne⟩
  acyclic s hm := by
    -- the outline of the shape's members would be smaller than itself
    rintro ⟨listed, hf, hback⟩
    obtain ⟨listed', members, hf', -, hd, -⟩ := h.of_shape hm
    rw [hf] at hf'
    cases hf'
    obtain ⟨listed', members', hf', -, hd', hlt⟩ := hd.of_shape hback
    rw [hf] at hf'
    cases hf'
    rw [hd.unique hd'] at hlt
    exact Nat.lt_irrefl _ hlt

/-! ## Well-formed definitions are described -/

/-- The fields of a part of a reached list, when the shapes on the way to it are `visiting`: each
step into a shape leaves fewer of them, as no shape on the way can be named again. -/
theorem WellFormed.exists_outline (hw : WellFormed shapes definitions) (visiting : List String)
    {listed : List FieldDefinition} (part : List FieldDefinition)
    (hr : Reachable shapes definitions listed)
    (hvis : ∀ s ∈ visiting, ∃ ms, shapes.find? s = some ms ∧ Reachable shapes ms listed)
    (hsub : ∀ d ∈ part, d ∈ listed) (hnodup : (part.map FieldDefinition.name).Nodup) :
    ∃ os, Describes shapes part os ∧ os.IsProper := by
  match part with
  | [] => exact ⟨.done, .done, trivial⟩
  | d :: ds =>
    obtain ⟨hname, hnodup⟩ := List.nodup_cons.1 hnodup
    have hd : d ∈ listed := hsub d List.mem_cons_self
    have isName : isFieldName d.name = true := isFieldName_iff.2 (hw.named listed hr d hd)
    obtain ⟨rest, hrest, hrp⟩ := hw.exists_outline visiting ds hr hvis
      (fun d' hd' => hsub d' (List.mem_cons_of_mem _ hd')) hnodup
    have hfresh : (⟨d.name, isName⟩ : FieldName) ∉ rest.names := by
      intro hn
      refine hname ?_
      show d.name ∈ ds.map FieldDefinition.name
      rw [hrest.names_eq]
      exact List.mem_map_of_mem hn
    match d with
    | .leaf name type => exact ⟨_, .leaf isName hrest, hfresh, hrp⟩
    | .nested name nesting own shape =>
      have hinner : ∀ {inner}, Nests shapes (.nested name nesting own shape) inner →
          ∀ s ∈ visiting, ∃ ms, shapes.find? s = some ms ∧ Reachable shapes ms inner := by
        intro inner hn s hs
        obtain ⟨ms, hf, hms⟩ := hvis s hs
        exact ⟨ms, hf, hms.step hd hn⟩
      rcases hw.sourced listed hr name nesting own shape hd with ⟨s, rfl, rfl⟩ | ⟨rfl, hne⟩
      · have hment : Mentions shapes definitions s := ⟨listed, hr, _, hd, rfl⟩
        obtain ⟨ms, hf, hne⟩ := hw.resolved s hment
        have hnew : s ∉ visiting := by
          intro hs
          obtain ⟨ms', hf', hback⟩ := hvis s hs
          exact hw.acyclic s hment ⟨ms', hf', listed, hback, _, hd, rfl⟩
        have hreach := hr.step hd (.byShape hf)
        have hvis' : ∀ s' ∈ visiting ++ [s], ∃ ms', shapes.find? s' = some ms' ∧
            Reachable shapes ms' ms := by
          intro s' hs'
          rcases List.mem_append.1 hs' with hs' | hs'
          · exact hinner (.byShape hf) s' hs'
          · rw [List.mem_singleton.1 hs']
            exact ⟨ms, hf, .top⟩
        have hlt := unvisited_append_lt (Table.mem_keys_of_find? hf) hnew
        obtain ⟨members, hm, hmp⟩ := hw.exists_outline (visiting ++ [s]) ms hreach hvis'
          (fun _ h => h) (hw.distinct ms hreach)
        exact ⟨_, .byShape isName hf hne hm hrest, hfresh, hm.ne_done hne, hmp, hrp⟩
      · have hreach := hr.step hd .inPlace
        obtain ⟨members, hm, hmp⟩ := hw.exists_outline visiting own hreach (hinner .inPlace)
          (fun _ h => h) (hw.distinct own hreach)
        exact ⟨_, .inPlace isName hne hm hrest, hfresh, hm.ne_done hne, hmp, hrp⟩
termination_by (unvisited shapes visiting, sizeOf part)
decreasing_by
  · exact .right _ (by simp only [List.cons.sizeOf_spec]; omega)
  · exact .left _ _ hlt
  · exact .right _ (by
      simp only [List.cons.sizeOf_spec, FieldDefinition.nested.sizeOf_spec]; omega)

/-- **Well-formed definitions are those that describe a proper outline.** -/
theorem wellFormed_iff_outline :
    WellFormed shapes definitions ↔ ∃ os, Describes shapes definitions os ∧ os.IsProper := by
  constructor
  · intro hw
    exact hw.exists_outline [] definitions .top (fun s hs => by cases hs) (fun _ h => h)
      (hw.distinct definitions .top)
  · rintro ⟨os, hd, hp⟩
    exact .of_outline hd hp

/-! ## Shapes that are not reached -/

/-- Tables that agree on the shapes that are named reach the same lists. -/
theorem Reachable.congr {shapes' : ShapeTable}
    (hagree : ∀ s, Mentions shapes definitions s → shapes'.find? s = shapes.find? s)
    (h : Reachable shapes' definitions listed) : Reachable shapes definitions listed := by
  induction h with
  | top => exact .top
  | step _ mem nests ih =>
    cases nests with
    | inPlace => exact ih.step mem .inPlace
    | byShape found =>
      rw [hagree _ ⟨_, ih, _, mem, rfl⟩] at found
      exact ih.step mem (.byShape found)

theorem Describes.congr {shapes' : ShapeTable} (h : Describes shapes' definitions os)
    (hagree : ∀ s, Mentions shapes definitions s → shapes'.find? s = shapes.find? s) :
    Describes shapes definitions os := by
  induction h with
  | done => exact .done
  | leaf isName _ ih => exact .leaf isName (ih fun s hs => hagree s hs.cons)
  | inPlace isName nonempty _ _ ihb iht =>
    refine .inPlace isName nonempty (ihb fun s hs => hagree s ?_) (iht fun s hs => hagree s hs.cons)
    exact hs.of_reachable (.step .top List.mem_cons_self .inPlace)
  | byShape isName found nonempty _ _ ihb iht =>
    rw [hagree _ ⟨_, .top, _, List.mem_cons_self, rfl⟩] at found
    refine .byShape isName found nonempty (ihb fun s hs => hagree s ?_)
      (iht fun s hs => hagree s hs.cons)
    exact hs.of_reachable (.step .top List.mem_cons_self (.byShape found))

/-- Definitions describe the same under tables that agree on the shapes that are named. -/
theorem describes_iff_of_agree {shapes' : ShapeTable}
    (hagree : ∀ s, Mentions shapes definitions s → shapes'.find? s = shapes.find? s) :
    Describes shapes' definitions os ↔ Describes shapes definitions os := by
  refine ⟨fun h => h.congr hagree, fun h => h.congr fun s hs => ?_⟩
  obtain ⟨listed, hr, hd⟩ := hs
  exact (hagree s ⟨listed, hr.congr hagree, hd⟩).symm

/-! ## The main result -/

/-- **A tree is built exactly for well-formed definitions**, whatever the table of shapes says about
shapes that are not reached. -/
theorem build_succeeds_iff_wellFormed (shapes : ShapeTable) (definitions : List FieldDefinition) :
    ((∃ t, FieldTree.build shapes definitions = .ok t) ↔ WellFormed shapes definitions) ∧
      ∀ shapes' : ShapeTable,
        (∀ s, Mentions shapes definitions s → shapes'.find? s = shapes.find? s) →
        ((∃ t, FieldTree.build shapes' definitions = .ok t) ↔
          ∃ t, FieldTree.build shapes definitions = .ok t) := by
  have hbuild : ∀ table : ShapeTable, (∃ t, FieldTree.build table definitions = .ok t) ↔
      ∃ os, Describes table definitions os ∧ os.IsProper := by
    intro table
    constructor
    · rintro ⟨t, h⟩
      obtain ⟨os, hd, hp, -⟩ := FieldTree.build_eq_ok_iff.1 h
      exact ⟨os, hd, hp⟩
    · rintro ⟨os, hd, hp⟩
      exact ⟨_, FieldTree.build_eq_ok_iff.2 ⟨os, hd, hp, rfl⟩⟩
  refine ⟨(hbuild shapes).trans wellFormed_iff_outline.symm, fun shapes' hagree => ?_⟩
  rw [hbuild, hbuild]
  exact exists_congr fun os => and_congr_left' (describes_iff_of_agree hagree)

end ResourceDelta
