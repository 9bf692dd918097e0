import ResourceDelta.Proofs.FieldTree.Representation

/-!
# Looking up paths

The field with a given path can be found in two ways: in the tree that was built from some
definitions, or by following the path through these definitions, segment by segment.

* `follow?` — the definition at the end of a row of segments.
* `Describes.follow?_eq_some_iff` — following a path ends where the path leads to.
* `Describes.mem_kinds_iff` — the outline that is described has the paths that lead somewhere, with
  the kinds of the definitions at their ends.
* `build_follows_definitions` — a tree has a field exactly for the paths that can be followed.
-/

set_option autoImplicit false

namespace ResourceDelta

/-! ## Following segments -/

/-- The definition at the end of a row of segments that starts among the listed members.  A name
leads to the member with it; what is left leads on among the members below that one, past a wildcard
if they are members of elements.  Nothing is below a leaf. -/
def follow? (shapes : ShapeTable) : List FieldDefinition → List Segment → Option FieldDefinition
  | _, [] => none
  | _, .element :: _ => none
  | listed, .field name :: rest =>
    match listed.find? fun d => d.name = name with
    | none => none
    | some d =>
      match d.nesting?, rest with
      | _, [] => some d
      | some .struct, rest => follow? shapes (d.membersIn shapes) rest
      | some .list, .element :: rest => follow? shapes (d.membersIn shapes) rest
      | some .map, .element :: rest => follow? shapes (d.membersIn shapes) rest
      | _, _ => none

/-- What stands between the name of a field and that of a member below it. -/
def Nesting.gap : Nesting → List Segment
  | .struct => []
  | .list => [.element]
  | .map => [.element]

theorem Nesting.segments_scope (nesting : Nesting) (scope : Scope) (n : FieldName) :
    (nesting.scope (scope.extend n)).segments = scope.segments ++ .field n.text :: nesting.gap := by
  cases nesting <;> simp [Nesting.scope, Scope.segments, Scope.segments_extend, gap]

section

variable {shapes : ShapeTable} {listed : List FieldDefinition} {d target : FieldDefinition}
  {scope : Scope} {path : FieldPath} {name : String} {rest ss : List Segment} {os : Outline}

theorem follow?_end (hd : listed.find? (fun d => d.name = name) = some d) :
    follow? shapes listed [.field name] = some d := by
  rw [follow?, hd]

theorem follow?_below {nesting : Nesting} (hd : listed.find? (fun d => d.name = name) = some d)
    (hn : d.nesting? = some nesting) (hrest : rest ≠ []) :
    follow? shapes listed (.field name :: (nesting.gap ++ rest)) =
      follow? shapes (d.membersIn shapes) rest := by
  obtain ⟨s, rest, rfl⟩ := List.exists_cons_of_ne_nil hrest
  rw [follow?, hd]
  cases nesting <;> simp only [hn, Nesting.gap, List.nil_append, List.cons_append]

/-! ## Where segments lead -/

/-- The name after the segments of a scope is that of a member. -/
theorem exists_name_of_segments (h : path.segments = scope.segments ++ .field name :: rest) :
    ∃ n : FieldName, n.text = name ∧ path.segments = (scope.extend n).segments ++ rest := by
  have hname : IsIdentifier name := path.segments_canonical.named name (by simp [h])
  refine ⟨⟨name, isFieldName_iff.2 hname⟩, rfl, ?_⟩
  rw [h, Scope.segments_extend, List.append_assoc]
  rfl

theorem leadsTo_end (hd : listed.find? (fun d => d.name = name) = some d)
    (hpath : path.segments = scope.segments ++ [.field name]) :
    LeadsTo shapes scope listed path d := by
  obtain ⟨n, rfl, hn⟩ := exists_name_of_segments hpath
  rw [List.append_nil] at hn
  rw [FieldPath.segments_injective hn]
  exact .member (List.mem_of_find?_eq_some hd) (by simpa using List.find?_some hd)

theorem leadsTo_below {nesting : Nesting} (hd : listed.find? (fun d => d.name = name) = some d)
    (hn : d.nesting? = some nesting)
    (hbelow : ∀ {scope : Scope}, path.segments = scope.segments ++ rest →
      LeadsTo shapes scope (d.membersIn shapes) path target)
    (hpath : path.segments = scope.segments ++ .field name :: (nesting.gap ++ rest)) :
    LeadsTo shapes scope listed path target := by
  obtain ⟨n, rfl, -⟩ := exists_name_of_segments hpath
  refine .further (List.mem_of_find?_eq_some hd) (by simpa using List.find?_some hd) hn (hbelow ?_)
  rw [hpath, nesting.segments_scope, List.append_assoc]
  rfl

/-- Where a row of segments can be followed to, the path with these segments leads. -/
theorem leadsTo_of_follow? (h : follow? shapes listed ss = some target)
    (hpath : path.segments = scope.segments ++ ss) : LeadsTo shapes scope listed path target := by
  fun_induction follow? shapes listed ss generalizing scope with
  | case1 => cases h
  | case2 => cases h
  | case3 => cases h
  | case4 listed name d hd =>
    cases h
    exact leadsTo_end hd hpath
  -- below a struct, and past a wildcard below a list and a map
  | case5 listed name d hd rest _ hn ih => exact leadsTo_below hd hn (fun hp => ih h hp) hpath
  | case6 listed name d hd rest hn ih => exact leadsTo_below hd hn (fun hp => ih h hp) hpath
  | case7 listed name d hd rest hn ih => exact leadsTo_below hd hn (fun hp => ih h hp) hpath
  | case8 => cases h

/-- A path that leads somewhere from a scope goes on with a name. -/
theorem LeadsTo.segments_eq (h : LeadsTo shapes scope listed path target) :
    ∃ name rest, path.segments = scope.segments ++ .field name :: rest := by
  induction h with
  | @member scope _ _ n _ _ => exact ⟨n.text, [], scope.segments_extend n⟩
  | @further scope _ _ _ n nesting _ _ _ _ _ ih =>
    obtain ⟨name, rest, h⟩ := ih
    rw [nesting.segments_scope, List.append_assoc] at h
    exact ⟨n.text, nesting.gap ++ .field name :: rest, h⟩

/-- In a described list, a member that nests others has them in place or from a shape. -/
theorem Describes.nests_membersIn (h : Describes shapes listed os) (hd : d ∈ listed)
    {nesting : Nesting} (hn : d.nesting? = some nesting) :
    Nests shapes d (d.membersIn shapes) := by
  cases d with
  | leaf => cases hn
  | nested name nesting own shape =>
    cases shape with
    | none => exact .inPlace
    | some s =>
      rcases h.source_of_mem hd with ⟨hnone, -⟩ | ⟨-, s', ms, hs, hfound, -⟩
      · cases hnone
      · cases hs
        simp only [FieldDefinition.membersIn, hfound]
        exact .byShape hfound

/-- In a described list with different names, the first member with a name is the one with it. -/
theorem Describes.find?_name (h : Describes shapes listed os) (hp : os.IsProper) (hd : d ∈ listed) :
    listed.find? (fun e => e.name = d.name) = some d :=
  find?_eq_some_of_nodup (h.nodup_names_iff.2 hp.names_nodup) hd

/-- Where a path leads, its segments can be followed to. -/
theorem LeadsTo.follow?_eq (h : LeadsTo shapes scope listed path target)
    (hd : Describes shapes listed os) (hp : os.IsProper)
    (hpath : path.segments = scope.segments ++ ss) : follow? shapes listed ss = some target := by
  induction h generalizing os ss with
  | @member scope listed d n mem named =>
    rw [scope.segments_extend] at hpath
    have hfound := hd.find?_name hp mem
    rw [named] at hfound
    rw [← List.append_cancel_left hpath]
    exact follow?_end hfound
  | @further scope listed d target n nesting path mem named nests rest ih =>
    obtain ⟨members, hm, -, hmp⟩ := hd.below_of_mem mem (hd.nests_membersIn mem nests)
    obtain ⟨name, after, hafter⟩ := rest.segments_eq
    have hss : ss = .field n.text :: (nesting.gap ++ .field name :: after) := by
      rw [nesting.segments_scope, hpath, List.append_assoc] at hafter
      exact List.append_cancel_left hafter
    have hfound := hd.find?_name hp mem
    rw [named] at hfound
    rw [hss, follow?_below hfound nests (List.cons_ne_nil _ _)]
    exact ih hm (hmp hp) hafter

/-- **Following a path ends where the path leads to.** -/
theorem Describes.follow?_eq_some_iff (hd : Describes shapes listed os) (hp : os.IsProper) :
    follow? shapes listed path.segments = some target ↔ LeadsTo shapes .top listed path target :=
  ⟨fun h => leadsTo_of_follow? h rfl, fun h => h.follow?_eq hd hp rfl⟩

end

/-! ## Kinds -/

/-- The fields of an outline that stands in a scope, by path and kind, with all below them. -/
def Outline.kinds : Scope → Outline → List (FieldPath × TypeKind)
  | _, .done => []
  | scope, .leaf name type rest => (scope.extend name, type.kind) :: rest.kinds scope
  | scope, .nested name nesting members rest =>
    (scope.extend name, nesting.kind) ::
      (members.kinds (nesting.scope (scope.extend name)) ++ rest.kinds scope)

theorem Outline.map_kind_fields (flags : FieldPath → Option FieldFlags) :
    ∀ (scope : Scope) (id : Nat) (os : Outline),
      (os.fields flags scope id).map (fun f => (f.path, f.kind)) = os.kinds scope
  | _, _, .done => rfl
  | scope, id, .leaf name type rest => by
    simp only [fields, kinds, List.map_cons, map_kind_fields flags scope]
    rfl
  | scope, id, .nested name nesting members rest => by
    simp only [fields, kinds, List.map_cons, List.map_append, map_kind_fields flags,
      Nesting.field_path, Nesting.field_kind]

theorem Outline.map_fst_kinds {scope : Scope} {os : Outline} :
    (os.kinds scope).map Prod.fst = os.paths scope := by
  rw [← map_kind_fields noFlags scope 0, ← map_path_fields noFlags scope 0, List.map_map]
  rfl

section

variable {shapes : ShapeTable} {definitions : List FieldDefinition} {d e : FieldDefinition}
  {scope : Scope} {path : FieldPath}

/-- A path leads to the first member or to one below it, or it leads on among the others. -/
theorem leadsTo_cons_iff {name : FieldName} (hname : e.name = name.text) :
    LeadsTo shapes scope (e :: definitions) path d ↔
      (path = scope.extend name ∧ d = e) ∨
        (∃ nesting, e.nesting? = some nesting ∧
          LeadsTo shapes (nesting.scope (scope.extend name)) (e.membersIn shapes) path d) ∨
        LeadsTo shapes scope definitions path d := by
  have hunique : ∀ {n : FieldName}, e.name = n.text → n = name := fun hn =>
    FieldName.ext_text (hn.symm.trans hname)
  constructor
  · intro h
    cases h with
    | member mem named =>
      rcases List.mem_cons.1 mem with rfl | mem
      · exact .inl ⟨by rw [hunique named], rfl⟩
      · exact .inr (.inr (.member mem named))
    | further mem named nests rest =>
      rcases List.mem_cons.1 mem with rfl | mem
      · rw [hunique named] at rest
        exact .inr (.inl ⟨_, nests, rest⟩)
      · exact .inr (.inr (.further mem named nests rest))
  · rintro (⟨rfl, rfl⟩ | ⟨nesting, nests, rest⟩ | h)
    · exact .member List.mem_cons_self hname
    · exact .further List.mem_cons_self hname nests rest
    · exact h.cons

theorem not_leadsTo_nil : ¬ LeadsTo shapes scope [] path d := by
  intro h
  cases h with
  | member mem => cases mem
  | further mem => cases mem

end

/-- **An outline has the paths that lead through the definitions that describe it**, with the kinds
of the definitions at their ends. -/
theorem Describes.mem_kinds_iff {shapes : ShapeTable} : ∀ {scope : Scope}
    {definitions : List FieldDefinition} {os : Outline} {path : FieldPath} {kind : TypeKind},
    Describes shapes definitions os →
      ((path, kind) ∈ os.kinds scope ↔
        ∃ d, LeadsTo shapes scope definitions path d ∧ d.kind = kind)
  | scope, _, .done, path, kind, h => by
    cases h
    simp [Outline.kinds, not_leadsTo_nil]
  | scope, _, .leaf name type rest, path, kind, h => by
    obtain ⟨ds, rfl, hrest⟩ := h.of_leaf
    constructor
    · intro hm
      rcases List.mem_cons.1 hm with heq | hm
      · cases heq
        exact ⟨_, .member List.mem_cons_self rfl, rfl⟩
      · obtain ⟨d, hl, hk⟩ := hrest.mem_kinds_iff.1 hm
        exact ⟨d, hl.cons, hk⟩
    · rintro ⟨d, hl, rfl⟩
      rcases (leadsTo_cons_iff rfl).1 hl with ⟨rfl, rfl⟩ | ⟨nesting, hn, -⟩ | hl
      · exact List.mem_cons_self
      · cases hn
      · exact List.mem_cons_of_mem _ (hrest.mem_kinds_iff.2 ⟨d, hl, rfl⟩)
  | scope, _, .nested name nesting members rest, path, kind, h => by
    obtain ⟨e, ds, rfl, hname, hkind, hnesting, hmembers, hrest⟩ := h.of_nested
    constructor
    · intro hm
      rcases List.mem_cons.1 hm with heq | hm
      · cases heq
        exact ⟨e, .member List.mem_cons_self hname, hkind⟩
      rcases List.mem_append.1 hm with hm | hm
      · obtain ⟨d, hl, hk⟩ := hmembers.mem_kinds_iff.1 hm
        exact ⟨d, .further List.mem_cons_self hname hnesting hl, hk⟩
      · obtain ⟨d, hl, hk⟩ := hrest.mem_kinds_iff.1 hm
        exact ⟨d, hl.cons, hk⟩
    · rintro ⟨d, hl, rfl⟩
      rcases (leadsTo_cons_iff hname).1 hl with ⟨rfl, rfl⟩ | ⟨nesting', hn, hl⟩ | hl
      · rw [hkind]
        exact List.mem_cons_self
      · rw [hnesting] at hn
        cases hn
        exact List.mem_cons_of_mem _
          (List.mem_append_left _ (hmembers.mem_kinds_iff.2 ⟨d, hl, rfl⟩))
      · exact List.mem_cons_of_mem _ (List.mem_append_right _ (hrest.mem_kinds_iff.2 ⟨d, hl, rfl⟩))

/-! ## Looking up -/

/-- What a tree has at a path is what its outline has there, with what is said about the path. -/
theorem Outline.resolve_tree_eq_some_iff {os : Outline} {flags : FieldPath → Option FieldFlags}
    {q p : FieldPath} {kind : TypeKind} {own : Option FieldFlags} (hp : os.IsProper) :
    ((os.tree flags).resolve q).map (fun f => (f.path, f.kind, f.flags)) = some (p, kind, own) ↔
      p = q ∧ (q, kind) ∈ os.kinds .top ∧ own = flags q := by
  rw [Option.map_eq_some_iff]
  constructor
  · rintro ⟨f, hf, heq⟩
    cases heq
    obtain ⟨hmem, rfl⟩ := (resolve_tree hp).1 hf
    rw [mem_tree_fields] at hmem
    rw [← map_kind_fields flags .top 0]
    exact ⟨rfl, List.mem_map_of_mem hmem, flags_of_mem_fields hmem⟩
  · rintro ⟨rfl, hmem, rfl⟩
    rw [← map_kind_fields flags .top 0] at hmem
    obtain ⟨f, hf, heq⟩ := List.mem_map.1 hmem
    cases heq
    exact ⟨f, (resolve_tree hp).2 ⟨mem_tree_fields.2 hf, rfl⟩, by rw [flags_of_mem_fields hf]⟩

/-- What the tree of an outline has at a path is what following the path ends at. -/
theorem Outline.resolve_tree_eq_follow? {os : Outline} {flags : FieldPath → Option FieldFlags}
    {shapes : ShapeTable} {definitions : List FieldDefinition}
    (hd : Describes shapes definitions os) (hp : os.IsProper) (q : FieldPath) :
    ((os.tree flags).resolve q).map (fun f => (f.path, f.kind)) =
      (follow? shapes definitions q.segments).map (fun d => (q, d.kind)) := by
  refine Option.ext fun (p, kind) => ?_
  calc ((os.tree flags).resolve q).map (fun f => (f.path, f.kind)) = some (p, kind)
      ↔ ∃ own, ((os.tree flags).resolve q).map (fun f => (f.path, f.kind, f.flags)) =
          some (p, kind, own) := by
        cases (os.tree flags).resolve q <;> simp
    _ ↔ p = q ∧ (q, kind) ∈ os.kinds .top := by
        simp only [resolve_tree_eq_some_iff hp, exists_and_left, exists_eq, and_true]
    _ ↔ p = q ∧ ∃ d, follow? shapes definitions q.segments = some d ∧ d.kind = kind := by
        rw [hd.mem_kinds_iff]
        simp only [hd.follow?_eq_some_iff hp]
    _ ↔ (follow? shapes definitions q.segments).map (fun d => (q, d.kind)) = some (p, kind) := by
        cases follow? shapes definitions q.segments <;> simp [eq_comm]

/-- **A tree has a field exactly for the paths that can be followed through its definitions**, with
the kind that the definition at the end prescribes, whatever overrides are attached to it.  So it
has a field for all paths above one that it has. -/
theorem build_follows_definitions {shapes : ShapeTable} {definitions : List FieldDefinition}
    {t : FieldTree} (h : FieldTree.build shapes definitions = .ok t)
    (calls : List (FieldPath × FieldFlags)) (q : FieldPath) :
    ((t.attachEach calls).resolve q).map (fun f => (f.path, f.kind)) =
        (follow? shapes definitions q.segments).map (fun d => (q, d.kind)) ∧
      (t.attachEach calls).contains q = (follow? shapes definitions q.segments).isSome ∧
      (((t.attachEach calls).resolve q).isSome = true →
        ∀ p ∈ q.ancestors, ((t.attachEach calls).resolve p).isSome = true) := by
  obtain ⟨os, hd, hp, rfl⟩ := FieldTree.build_eq_ok_iff.1 h
  obtain ⟨flags, hflags⟩ := Outline.attachEach_tree noFlags hp calls
  rw [hflags]
  have hresolve : ((os.tree flags).resolve q).map (fun f => (f.path, f.kind)) =
      (follow? shapes definitions q.segments).map (fun d => (q, d.kind)) :=
    Outline.resolve_tree_eq_follow? hd hp q
  have hsome : ∀ p, ((os.tree flags).resolve p).isSome = true ↔ p ∈ os.paths .top :=
    fun p => Outline.isSome_resolve_tree hp
  refine ⟨hresolve, ?_, fun hq p hpq => ?_⟩
  · rw [Bool.eq_iff_iff, Outline.contains_tree, ← hsome, ← Option.isSome_map, hresolve,
      Option.isSome_map]
  · rw [hsome] at hq ⊢
    exact Outline.mem_paths_of_covers hq (FieldPath.mem_ancestors_iff.1 hpq).1

/-- Members of elements are not followed to without a wildcard. -/
example : follow? ruleShapes ruleDefinitions [.field "rules", .field "id"] = none := by cbv

/-- The key of the scope that the rules of a list have. -/
def ruleKeyPath : FieldPath :=
  ⟨⟨"rules", by decide⟩,
    [.elementMember ⟨"scope", by decide⟩, .member ⟨"key", by decide⟩]⟩

/-- The key is found in the tree, and so are all paths above it. -/
theorem build_follows_definitions_rules :
    ∃ t, FieldTree.build ruleShapes ruleDefinitions = .ok t ∧
      ((t.attachEach ruleCalls).resolve ruleKeyPath).map (fun f => (f.path, f.kind)) =
        some (ruleKeyPath, .optionalScalar .string) ∧
      ∀ p ∈ ruleKeyPath.ancestors, ((t.attachEach ruleCalls).resolve p).isSome = true := by
  have hok : (FieldTree.build ruleShapes ruleDefinitions).isOk = true := by cbv
  cases h : FieldTree.build ruleShapes ruleDefinitions with
  | error e =>
    rw [h] at hok
    cases hok
  | ok t =>
    obtain ⟨hresolve, -, habove⟩ := build_follows_definitions h ruleCalls ruleKeyPath
    have hfollow : (follow? ruleShapes ruleDefinitions ruleKeyPath.segments).map
        (fun d => (ruleKeyPath, d.kind)) = some (ruleKeyPath, .optionalScalar .string) := by cbv
    rw [hfollow] at hresolve
    refine ⟨t, rfl, hresolve, habove ?_⟩
    rw [← Option.isSome_map, hresolve]
    rfl

end ResourceDelta
