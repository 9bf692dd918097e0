import ResourceDelta.Proofs.FieldTree.Acceptance
import ResourceDelta.Proofs.FieldTree.FirstDefect
import ResourceDelta.Proofs.FieldTree.Following
import ResourceDelta.Proofs.FieldTree.Loading

/-!
# The stack of shapes

At every call of a loader, its stack holds the shapes that were expanded on the way down to the
place in hand, outermost first.  None of them occurs twice, so there are never more than the table
has.

* `descend` — the way down through some definitions by names, with the shapes expanded on it.
* `Call.IsSound` — the invariant of a call: its stack, and what has been loaded before it.  That the
  earlier siblings have been loaded makes the definition in hand the first with its name.
* `Call.IsSound.members`, `Call.IsSound.shapeLoop` and so on — each call makes calls that keep it.
* `Loads.sound` — so all calls of a run keep it.
* `build_keeps_stack` — the stack throughout a build, which comes to an end.
-/

set_option autoImplicit false

namespace ResourceDelta

/-! ## The way down by names -/

/-- The names on a path, from the top-level field's on. -/
def FieldPath.names (p : FieldPath) : List String :=
  p.root.text :: p.steps.map fun s => s.name.text

/-- The names of the fields that the members of a scope are below. -/
def Scope.names : Scope → List String
  | .top => []
  | .struct path => path.names
  | .elements path => path.names

theorem Scope.names_extend (scope : Scope) (n : FieldName) :
    (scope.extend n).names = scope.names ++ [n.text] := by
  cases scope <;> simp [extend, names, FieldPath.names, FieldPath.extend, Step.name]

theorem Nesting.names_scope (nesting : Nesting) (path : FieldPath) :
    (nesting.scope path).names = path.names := by
  cases nesting <;> rfl

/-- A list of members that is met on the way down. -/
structure Descent where
  /-- The shapes that were expanded on the way, outermost first. -/
  expanded : List String
  listed : List FieldDefinition

/-- One step down, to the members below the first field with a name. -/
def Descent.down (shapes : ShapeTable) (here : Descent) (name : String) : Descent :=
  match here.listed.find? fun d => d.name = name with
  | none => ⟨here.expanded, []⟩
  | some d => ⟨here.expanded ++ d.shape?.toList, d.membersIn shapes⟩

/-- The way down from some definitions. -/
def descend (shapes : ShapeTable) (definitions : List FieldDefinition) (names : List String) :
    Descent :=
  names.foldl (Descent.down shapes) ⟨[], definitions⟩

/-- The names of the fields that a task is inside of. -/
def Task.enclosing : Task → List String
  | .field path _ => path.names.dropLast
  | .members path _ _ _ => path.names.dropLast
  | .each scope _ => scope.names

section

variable {shapes : ShapeTable} {definitions own listed ds : List FieldDefinition} {l : Loader}
  {t : Task} {calls : List Call} {r : Loaded} {scope : Scope} {path : FieldPath}
  {nesting : Nesting} {name : String} {shape : Option String} {d : FieldDefinition}

theorem descend_extend {n : FieldName}
    (h : (descend shapes definitions scope.names).listed.find? (fun e => e.name = n.text) =
      some d) :
    descend shapes definitions (scope.extend n).names =
      ⟨(descend shapes definitions scope.names).expanded ++ d.shape?.toList,
        d.membersIn shapes⟩ := by
  unfold descend at h ⊢
  rw [scope.names_extend, List.foldl_concat, Descent.down, h]

/-! ## The invariant of a call -/

/-- The stack of a call holds the shapes expanded on the way down to it, each once. -/
structure HasSoundStack (shapes : ShapeTable) (definitions : List FieldDefinition) (c : Call) :
    Prop where
  nodup : c.loader.visiting.Nodup
  known : ∀ s ∈ c.loader.visiting, s ∈ shapes.keys
  /-- The stack is the row of shapes that were expanded on the way to the place in hand. -/
  expanded : c.loader.visiting = (descend shapes definitions c.task.enclosing).expanded

theorem HasSoundStack.length_le {c : Call} (h : HasSoundStack shapes definitions c) :
    c.loader.visiting.length ≤ shapes.keys.length :=
  h.nodup.length_le_of_subset h.known

/-- What is left to be visited is met on the way down, and what comes before it has been loaded. -/
def Task.IsPlaced (shapes : ShapeTable) (definitions : List FieldDefinition)
    (fields : Array Field) : Task → Prop
  | .field path d => ∃ (scope : Scope) (n : FieldName) (earlier later : List FieldDefinition),
      path = scope.extend n ∧ d.name = n.text ∧
      (descend shapes definitions scope.names).listed = earlier ++ d :: later ∧
      Stocked scope (earlier.map FieldDefinition.name) fields
  | .members path nesting own shape => ∃ (scope : Scope) (n : FieldName), path = scope.extend n ∧
      (descend shapes definitions scope.names).listed.find? (fun d => d.name = n.text) =
        some (.nested n.text nesting own shape) ∧
      Stocked (nesting.scope path) [] fields
  | .each scope listed => ∃ earlier,
      (descend shapes definitions scope.names).listed = earlier ++ listed ∧
      Stocked scope (earlier.map FieldDefinition.name) fields

/-- The invariant of the calls of a build. -/
structure Call.IsSound (shapes : ShapeTable) (definitions : List FieldDefinition) (c : Call) :
    Prop where
  stack : HasSoundStack shapes definitions c
  placed : c.task.IsPlaced shapes definitions c.loader.fields

/-- Where the members of a field are found, and in which shapes. -/
theorem HasSoundStack.descend_members {n : FieldName}
    (h : HasSoundStack shapes definitions ⟨l, .members (scope.extend n) nesting own shape⟩)
    (hfound : (descend shapes definitions scope.names).listed.find? (fun d => d.name = n.text) =
      some (.nested n.text nesting own shape)) :
    descend shapes definitions (nesting.scope (scope.extend n)).names =
      ⟨l.visiting ++ shape.toList,
        (FieldDefinition.nested n.text nesting own shape).membersIn shapes⟩ := by
  have hexpanded :
      l.visiting = (descend shapes definitions (scope.extend n).names.dropLast).expanded :=
    h.expanded
  rw [scope.names_extend, List.dropLast_concat] at hexpanded
  rw [nesting.names_scope, descend_extend hfound, hexpanded]
  rfl

namespace Call.IsSound

theorem start : (⟨.start, .each .top definitions⟩ : Call).IsSound shapes definitions where
  stack := ⟨List.nodup_nil, fun _ hs => absurd hs List.not_mem_nil, rfl⟩
  placed := ⟨[], rfl, .top⟩

/-- A field that is not there yet is the first with its name. -/
theorem members
    (h : (⟨l, .field path (.nested name nesting own shape)⟩ : Call).IsSound shapes definitions)
    (fresh : ∀ f ∈ l.fields, f.path ≠ path) :
    (⟨l.add path nesting.kind, .members path nesting own shape⟩ : Call).IsSound shapes
      definitions := by
  obtain ⟨stack, scope, n, earlier, later, rfl, hname, hlisted, hstocked⟩ := h
  obtain rfl : name = n.text := hname
  have hnew : n.text ∉ earlier.map FieldDefinition.name := by
    intro hmem
    obtain ⟨f, hf, hpath⟩ := hstocked.present n hmem
    exact fresh f hf hpath
  have hearlier : earlier.find? (fun d => d.name = n.text) = none := by
    rw [List.find?_eq_none]
    intro d hd hdn
    refine hnew ?_
    rw [← of_decide_eq_true hdn]
    exact List.mem_map_of_mem hd
  refine ⟨⟨stack.nodup, stack.known, stack.expanded⟩, scope, n, rfl, ?_,
    hstocked.members hnew nesting⟩
  rw [hlisted, List.find?_append, hearlier, Option.none_or]
  exact List.find?_cons_of_pos (decide_eq_true rfl)

/-- The members that a field lists are visited in the shapes that the field is in. -/
theorem ownLoop (h : (⟨l, .members path nesting listed none⟩ : Call).IsSound shapes definitions) :
    (⟨l, .each (nesting.scope path) listed⟩ : Call).IsSound shapes definitions := by
  obtain ⟨stack, scope, n, rfl, hfound, hstocked⟩ := h
  have hbelow := stack.descend_members hfound
  refine ⟨⟨stack.nodup, stack.known, ?_⟩, [], ?_, hstocked⟩
  · show l.visiting = (descend shapes definitions (nesting.scope _).names).expanded
    rw [hbelow]
    exact (List.append_nil _).symm
  · rw [hbelow]
    rfl

/-- The members of a shape are visited in this shape as well. -/
theorem shapeLoop
    (h : (⟨l, .members path nesting [] (some name)⟩ : Call).IsSound shapes definitions)
    (unvisited : name ∉ l.visiting) (found : shapes.find? name = some listed) :
    (⟨l.push name, .each (nesting.scope path) listed⟩ : Call).IsSound shapes definitions := by
  obtain ⟨stack, scope, n, rfl, hfound, hstocked⟩ := h
  have hbelow := stack.descend_members hfound
  refine ⟨⟨?_, ?_, ?_⟩, [], ?_, hstocked⟩
  · exact List.nodup_append.2 ⟨stack.nodup, List.nodup_singleton name,
      fun s hs s' hs' he => unvisited (List.mem_singleton.1 hs' ▸ he ▸ hs)⟩
  · intro s hs
    rcases List.mem_append.1 hs with hs | hs
    · exact stack.known s hs
    · rw [List.mem_singleton.1 hs]
      exact Table.mem_keys_of_find? found
  · show l.visiting ++ [name] = (descend shapes definitions (nesting.scope _).names).expanded
    rw [hbelow]
    rfl
  · rw [hbelow, FieldDefinition.membersIn, found]
    rfl

theorem first (h : (⟨l, .each scope (d :: ds)⟩ : Call).IsSound shapes definitions)
    (named : scope.path d.name = .ok path) :
    (⟨l, .field path d⟩ : Call).IsSound shapes definitions := by
  obtain ⟨stack, earlier, hlisted, hstocked⟩ := h
  obtain ⟨isName, rfl⟩ := Scope.path_eq_ok_iff.1 named
  refine ⟨⟨stack.nodup, stack.known, ?_⟩, scope, ⟨d.name, isName⟩, earlier, ds, rfl, rfl, hlisted,
    hstocked⟩
  show l.visiting = (descend shapes definitions (scope.extend _).names.dropLast).expanded
  rw [scope.names_extend, List.dropLast_concat]
  exact stack.expanded

/-- After a field, its later siblings are visited in the same shapes. -/
theorem rest {mid : Loader} {id : List Nat}
    (h : (⟨l, .each scope (d :: ds)⟩ : Call).IsSound shapes definitions)
    (named : scope.path d.name = .ok path)
    (loaded : Loads shapes l (.field path d) calls (.ok (id, mid))) :
    (⟨mid, .each scope ds⟩ : Call).IsSound shapes definitions := by
  obtain ⟨⟨nodup, known, expanded⟩, earlier, hlisted, hstocked⟩ := h
  obtain ⟨isName, rfl⟩ := Scope.path_eq_ok_iff.1 named
  have hafter := hstocked.visited loaded.insertField_eq
  have hvisiting : mid.visiting = l.visiting := loaded.visiting_eq
  refine ⟨⟨?_, ?_, ?_⟩, earlier ++ [d], ?_, ?_⟩
  · rw [hvisiting]
    exact nodup
  · rw [hvisiting]
    exact known
  · rw [hvisiting]
    exact expanded
  · rw [hlisted, List.append_assoc]
    rfl
  · rw [List.map_append]
    exact hafter

end Call.IsSound

/-- **All calls of a run are sound if the first one is.** -/
theorem Loads.sound (h : Loads shapes l t calls r)
    (hfirst : (⟨l, t⟩ : Call).IsSound shapes definitions) :
    ∀ c ∈ calls, c.IsSound shapes definitions := by
  induction h with
  | duplicate => exact List.forall_mem_singleton.2 hfirst
  | leaf => exact List.forall_mem_singleton.2 hfirst
  | nested fresh _ ih => exact List.forall_mem_cons.2 ⟨hfirst, ih (hfirst.members fresh)⟩
  | refused => exact List.forall_mem_singleton.2 hfirst
  | own _ _ ih => exact List.forall_mem_cons.2 ⟨hfirst, ih hfirst.ownLoop⟩
  | shape unvisited found _ _ ih =>
    exact List.forall_mem_cons.2 ⟨hfirst, ih (hfirst.shapeLoop unvisited found)⟩
  | done => exact List.forall_mem_singleton.2 hfirst
  | unnamed => exact List.forall_mem_singleton.2 hfirst
  | failed named _ ih => exact List.forall_mem_cons.2 ⟨hfirst, ih (hfirst.first named)⟩
  | next named first _ ihf ihr =>
    exact List.forall_mem_cons.2 ⟨hfirst, List.forall_mem_append.2
      ⟨ihf (hfirst.first named), ihr (hfirst.rest named first)⟩⟩

end

/-! ## The stack throughout a build -/

/-- **The stack is sound and bounds the expansion.**  A build comes to an end after some calls, the
only ones that it can make.  At each of them, the stack is the row of the shapes that were expanded
on the way down, none of them twice, so it has at most as many as the table.  A call that succeeds
leaves the stack as it found it. -/
theorem build_keeps_stack (shapes : ShapeTable) (definitions : List FieldDefinition) :
    (∃ calls r, Loads shapes .start (.each .top definitions) calls r ∧
      (∀ calls' r', Loads shapes .start (.each .top definitions) calls' r' →
        calls' = calls ∧ r' = r) ∧
      FieldTree.build shapes definitions = r.map (fun x => ⟨x.2.fields, x.1⟩) ∧
      ∀ c ∈ calls, HasSoundStack shapes definitions c ∧
        c.loader.visiting.length ≤ shapes.keys.length) ∧
    ∀ l t calls ids after, Loads shapes l t calls (.ok (ids, after)) →
      after.visiting = l.visiting := by
  refine ⟨?_, fun l t calls ids after h => h.visiting_eq⟩
  obtain ⟨calls, r, run⟩ := exists_loads shapes .start (.each .top definitions)
  refine ⟨calls, r, run, fun _ _ run' => ⟨run'.calls_eq run, run'.result_eq run⟩, ?_, ?_⟩
  · rw [run.eq_outcome, Task.outcome, FieldTree.build]
    show _ = ((insertMembers shapes [] .top #[] definitions).map _).map _
    cases insertMembers shapes [] .top #[] definitions <;> rfl
  · intro c hc
    have hsound := (run.sound .start c hc).stack
    exact ⟨hsound, hsound.length_le⟩

/-- Tags, which hold a key. -/
def tagShapes : ShapeTable :=
  .ofList [("Tag", [.scalar "key" .string])]

/-- A list of tags and a single tag. -/
def tagDefinitions : List FieldDefinition :=
  [.nested "tags" .list [] (some "Tag"), .shapeRef "owner" "Tag"]

/-- The visit of the members of a tag. -/
theorem loads_tag {l : Loader} {scope : Scope} {path : FieldPath}
    (named : scope.path "key" = .ok path) (fresh : ∀ f ∈ l.fields, f.path ≠ path) :
    Loads tagShapes l (.each scope [.scalar "key" .string])
      [⟨l, .each scope [.scalar "key" .string]⟩, ⟨l, .field path (.scalar "key" .string)⟩,
        ⟨l.add path (.optionalScalar .string), .each scope []⟩]
      (.ok ([l.fields.size], l.add path (.optionalScalar .string))) :=
  .next named (.leaf fresh) .done

theorem build_keeps_stack_tags : ∃ calls ids after,
    Loads tagShapes .start (.each .top tagDefinitions) calls (.ok (ids, after)) ∧
      (calls.map fun c => c.loader.visiting) =
        [[], [], [], ["Tag"], ["Tag"], ["Tag"], [], [], [], ["Tag"], ["Tag"], ["Tag"], []] ∧
      (∀ c ∈ calls, HasSoundStack tagShapes tagDefinitions c) ∧ after.visiting = [] := by
  obtain ⟨⟨calls, r, run, unique, -, sound⟩, balanced⟩ :=
    build_keeps_stack tagShapes tagDefinitions
  have fresh {l : Loader} {path : FieldPath} (h : (l.fields.any fun f => f.path = path) = false) :
      ∀ f ∈ l.fields, f.path ≠ path := any_path_eq_false.1 h
  have found : tagShapes.find? "Tag" = some [.scalar "key" .string] := rfl
  have single : [FieldDefinition.scalar "key" .string] ≠ [] := List.cons_ne_nil _ _
  have named (scope : Scope) (n : FieldName) : scope.path n.text = .ok (scope.extend n) :=
    Scope.path_eq_ok_iff.2 ⟨n.2, rfl⟩
  obtain ⟨rfl, rfl⟩ := unique _ _ <| .next (named .top ⟨"tags", by decide⟩)
    (.nested (fresh (by decide +kernel)) (.shape List.not_mem_nil found single
      (loads_tag (named _ ⟨"key", by decide⟩) (fresh (by decide +kernel)))))
    (.next (named .top ⟨"owner", by decide⟩)
      (.nested (fresh (by decide +kernel)) (.shape (by decide) found single
        (loads_tag (named _ ⟨"key", by decide⟩) (fresh (by decide +kernel)))))
      .done)
  exact ⟨_, _, _, run, rfl, fun c hc => (sound c hc).1, balanced _ _ _ _ _ run⟩

end ResourceDelta
