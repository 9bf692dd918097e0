import ResourceDelta.Proofs.FieldTree.Building

/-!
# Loading with a stack of shapes

The visit that builds a tree can be done by a loader that keeps its own stack of shapes: it pushes a
shape before it visits the members of that shape, and pops it afterwards.  `Loads` says how such a
loader works, one rule for each thing it can meet, with all the calls that it makes.  A loader that
went on forever would have no such run.

* `Task.outcome` — what a task comes to, in terms of the visit that is given the shapes it is in.
* `Loads.eq_outcome` — a loader comes to the same.  The induction on its run shows at once that the
  stack is left as it was found: only so are the later siblings visited in the same shapes.
* `Loads.visiting_eq` — the stack after a task.
* `Loads.calls_eq` — there is one run for a task.
* `exists_loads` — every task comes to an end, in whatever state it is begun.
-/

set_option autoImplicit false

namespace ResourceDelta

/-! ## Loaders -/

/-- A loader between two steps. -/
structure Loader where
  /-- The shapes whose members are being visited, outermost first. -/
  visiting : List String
  fields : Array Field

namespace Loader

def start : Loader := ⟨[], #[]⟩

/-- Appends a field without members. -/
def add (l : Loader) (path : FieldPath) (kind : TypeKind) : Loader :=
  { l with fields := l.fields.push (.bare path kind) }

/-- Fills in the members of a field. -/
def fill (l : Loader) (id : Nat) (nesting : Nesting) (ids : List Nat) : Loader :=
  { l with fields := l.fields.modify id (Field.withMembers nesting ids) }

def push (l : Loader) (shape : String) : Loader :=
  { l with visiting := l.visiting ++ [shape] }

def pop (l : Loader) : Loader :=
  { l with visiting := l.visiting.dropLast }

theorem visiting_add (l : Loader) (path : FieldPath) (kind : TypeKind) :
    (l.add path kind).visiting = l.visiting := rfl

theorem visiting_push (l : Loader) (shape : String) :
    (l.push shape).visiting = l.visiting ++ [shape] := rfl

end Loader

/-- What a loader is asked to visit. -/
inductive Task where
  /-- A defined field, at its path. -/
  | field (path : FieldPath) (definition : FieldDefinition)
  /-- The members of the field at a path, which are listed or those of a shape. -/
  | members (path : FieldPath) (nesting : Nesting) (own : List FieldDefinition)
      (shape : Option String)
  /-- What is left of a list of members. -/
  | each (scope : Scope) (listed : List FieldDefinition)

/-- A task and the state in which it is begun. -/
structure Call where
  loader : Loader
  task : Task

/-- What comes of a task: the numbers of the fields that it is for, and the state after it. -/
abbrev Loaded := Except Defect (List Nat × Loader)

/-- A loader, given a task, makes some calls, the first of which is for the task itself, and comes
to an end. -/
inductive Loads (shapes : ShapeTable) : Loader → Task → List Call → Loaded → Prop
  | duplicate {l : Loader} {path : FieldPath} {d : FieldDefinition}
      (present : ∃ f ∈ l.fields, f.path = path) :
      Loads shapes l (.field path d) [⟨l, .field path d⟩] (.error (.duplicateField path))
  | leaf {l : Loader} {path : FieldPath} {name : String} {type : LeafType}
      (fresh : ∀ f ∈ l.fields, f.path ≠ path) :
      Loads shapes l (.field path (.leaf name type)) [⟨l, .field path (.leaf name type)⟩]
        (.ok ([l.fields.size], l.add path type.kind))
  | nested {l : Loader} {path : FieldPath} {name : String} {nesting : Nesting}
      {own : List FieldDefinition} {shape : Option String} {calls : List Call} {r : Loaded}
      (fresh : ∀ f ∈ l.fields, f.path ≠ path)
      (below : Loads shapes (l.add path nesting.kind) (.members path nesting own shape) calls r) :
      Loads shapes l (.field path (.nested name nesting own shape))
        (⟨l, .field path (.nested name nesting own shape)⟩ :: calls)
        (r.map fun x => ([l.fields.size], x.2.fill l.fields.size nesting x.1))
  | refused {l : Loader} {path : FieldPath} {nesting : Nesting} {own : List FieldDefinition}
      {shape : Option String} {e : Defect}
      (reason : takeMembers shapes l.visiting path own shape = .error e) :
      Loads shapes l (.members path nesting own shape) [⟨l, .members path nesting own shape⟩]
        (.error e)
  | own {l : Loader} {path : FieldPath} {nesting : Nesting} {listed : List FieldDefinition}
      {calls : List Call} {r : Loaded} (nonempty : listed ≠ [])
      (loop : Loads shapes l (.each (nesting.scope path) listed) calls r) :
      Loads shapes l (.members path nesting listed none)
        (⟨l, .members path nesting listed none⟩ :: calls) r
  | shape {l : Loader} {path : FieldPath} {nesting : Nesting} {name : String}
      {listed : List FieldDefinition} {calls : List Call} {r : Loaded}
      (unvisited : name ∉ l.visiting) (found : shapes.find? name = some listed)
      (nonempty : listed ≠ [])
      (loop : Loads shapes (l.push name) (.each (nesting.scope path) listed) calls r) :
      Loads shapes l (.members path nesting [] (some name))
        (⟨l, .members path nesting [] (some name)⟩ :: calls) (r.map fun x => (x.1, x.2.pop))
  | done {l : Loader} {scope : Scope} :
      Loads shapes l (.each scope []) [⟨l, .each scope []⟩] (.ok ([], l))
  | unnamed {l : Loader} {scope : Scope} {d : FieldDefinition} {ds : List FieldDefinition}
      {cause : PathError} (invalid : scope.path d.name = .error cause) :
      Loads shapes l (.each scope (d :: ds)) [⟨l, .each scope (d :: ds)⟩]
        (.error (.invalidName cause))
  | failed {l : Loader} {scope : Scope} {d : FieldDefinition} {ds : List FieldDefinition}
      {path : FieldPath} {calls : List Call} {e : Defect} (named : scope.path d.name = .ok path)
      (first : Loads shapes l (.field path d) calls (.error e)) :
      Loads shapes l (.each scope (d :: ds)) (⟨l, .each scope (d :: ds)⟩ :: calls) (.error e)
  | next {l mid : Loader} {scope : Scope} {d : FieldDefinition} {ds : List FieldDefinition}
      {path : FieldPath} {calls later : List Call} {id : List Nat} {r : Loaded}
      (named : scope.path d.name = .ok path)
      (first : Loads shapes l (.field path d) calls (.ok (id, mid)))
      (rest : Loads shapes mid (.each scope ds) later r) :
      Loads shapes l (.each scope (d :: ds)) (⟨l, .each scope (d :: ds)⟩ :: (calls ++ later))
        (r.map fun x => (id ++ x.1, x.2))

variable {shapes : ShapeTable} {l : Loader} {t : Task} {calls : List Call} {r : Loaded}

/-! ## What a loader comes to -/

/-- What a task comes to by the visit that is told the shapes it is in, where the stack is left as
it was found. -/
def Task.outcome (shapes : ShapeTable) (l : Loader) : Task → Loaded
  | .field path d =>
    (insertField shapes l.visiting path l.fields d).map fun fields =>
      ([l.fields.size], ⟨l.visiting, fields⟩)
  | .members path nesting own shape => do
    let (inside, listed) ← takeMembers shapes l.visiting path own shape
    (insertMembers shapes inside (nesting.scope path) l.fields listed).map fun x =>
      (x.1, ⟨l.visiting, x.2⟩)
  | .each scope listed =>
    (insertMembers shapes l.visiting scope l.fields listed).map fun x =>
      (x.1, ⟨l.visiting, x.2⟩)

/-- What becomes of a field that can be visited. -/
theorem Task.insertField_of_outcome {path : FieldPath} {d : FieldDefinition} {ids : List Nat}
    {after : Loader} (h : (Task.field path d).outcome shapes l = .ok (ids, after)) :
    insertField shapes l.visiting path l.fields d = .ok after.fields ∧ ids = [l.fields.size] ∧
      after.visiting = l.visiting := by
  obtain ⟨fields, hfield, heq⟩ := map_eq_ok.1 h
  cases heq
  exact ⟨hfield, rfl, rfl⟩

/-- **A loader comes to what the visit comes to that is told the shapes it is in.** -/
theorem Loads.eq_outcome (h : Loads shapes l t calls r) : r = t.outcome shapes l := by
  induction h with
  | @duplicate l path d present =>
    have hany : (l.fields.any fun f => f.path = path) = true := by
      obtain ⟨f, hf, hpath⟩ := present
      exact Array.any_eq_true'.2 ⟨f, hf, decide_eq_true hpath⟩
    rw [Task.outcome, insertField_of_any hany]
    rfl
  | leaf fresh =>
    rw [Task.outcome, insertField_leaf_iff.2 ⟨fresh, rfl⟩]
    rfl
  | @nested l path name nesting own shape calls r fresh below ih =>
    have hany : (l.fields.any fun f => f.path = path) = false := any_path_eq_false.2 fresh
    rw [ih, Task.outcome, Task.outcome, insertField_nested_eq, hany, Loader.visiting_add]
    rcases takeMembers shapes l.visiting path own shape with e | ⟨inside, listed⟩
    · rfl
    · show ((insertMembers shapes inside (nesting.scope path) (l.add path nesting.kind).fields
        listed).map _).map _ = (insertMembers shapes inside (nesting.scope path)
        (l.add path nesting.kind).fields listed >>= _).map _
      rcases insertMembers shapes inside (nesting.scope path) (l.add path nesting.kind).fields
        listed with e | ⟨ids, after⟩ <;> rfl
  | refused reason =>
    rw [Task.outcome, reason]
    rfl
  | own nonempty loop ih =>
    rw [ih, Task.outcome, Task.outcome, takeMembers_eq_ok_iff.2 (.own nonempty)]
    rfl
  | @shape l path nesting name listed calls r unvisited found nonempty loop ih =>
    -- popping takes off what was pushed, as the members have left the stack alone
    rw [ih, Task.outcome, Task.outcome, takeMembers_eq_ok_iff.2 (.shape unvisited found nonempty)]
    show ((insertMembers shapes (l.visiting ++ [name]) (nesting.scope path) l.fields listed).map
      _).map _ = (insertMembers shapes (l.visiting ++ [name]) (nesting.scope path) l.fields
      listed).map _
    rcases insertMembers shapes (l.visiting ++ [name]) (nesting.scope path) l.fields listed with
      e | ⟨ids, after⟩
    · rfl
    · simp [Except.map, Loader.pop, Loader.visiting_push]
  | done =>
    rw [Task.outcome, insertMembers_nil_iff.2 ⟨rfl, rfl⟩]
    rfl
  | unnamed invalid =>
    rw [Task.outcome, insertMembers_cons_of_error invalid]
    rfl
  | failed named first ih =>
    obtain ⟨isName, rfl⟩ := Scope.path_eq_ok_iff.1 named
    rw [Task.outcome, insertMembers_cons_eq isName, map_eq_error.1 ih.symm]
    rfl
  | @next l mid scope d ds path calls later id r named first rest ihf ihr =>
    obtain ⟨isName, rfl⟩ := Scope.path_eq_ok_iff.1 named
    obtain ⟨hfield, rfl, hvisiting⟩ := Task.insertField_of_outcome ihf.symm
    rw [ihr, Task.outcome, Task.outcome, insertMembers_cons_eq isName, hfield, hvisiting]
    show ((insertMembers shapes l.visiting scope mid.fields ds).map _).map _ =
      (insertMembers shapes l.visiting scope mid.fields ds >>= _).map _
    rcases insertMembers shapes l.visiting scope mid.fields ds with e | ⟨ids, after⟩ <;> rfl

theorem Task.visiting_of_outcome {ids : List Nat} {after : Loader}
    (h : t.outcome shapes l = .ok (ids, after)) : after.visiting = l.visiting := by
  cases t with
  | field path d => exact (insertField_of_outcome h).2.2
  | members path nesting own shape =>
    obtain ⟨taken, -, h⟩ := bind_eq_ok.1 h
    obtain ⟨x, -, heq⟩ := map_eq_ok.1 h
    cases heq
    rfl
  | each scope listed =>
    obtain ⟨x, -, heq⟩ := map_eq_ok.1 h
    cases heq
    rfl

/-- **A loader leaves the stack as it found it**, if it succeeds. -/
theorem Loads.visiting_eq {ids : List Nat} {after : Loader}
    (h : Loads shapes l t calls (.ok (ids, after))) : after.visiting = l.visiting :=
  Task.visiting_of_outcome h.eq_outcome.symm

/-- The fields after a field has been loaded. -/
theorem Loads.insertField_eq {path : FieldPath} {d : FieldDefinition} {ids : List Nat}
    {after : Loader} (h : Loads shapes l (.field path d) calls (.ok (ids, after))) :
    insertField shapes l.visiting path l.fields d = .ok after.fields :=
  (Task.insertField_of_outcome h.eq_outcome.symm).1

theorem Loads.result_eq {calls' : List Call} {r' : Loaded} (h : Loads shapes l t calls r)
    (h' : Loads shapes l t calls' r') : r = r' :=
  h.eq_outcome.trans h'.eq_outcome.symm

/-- A loader has one way to do a task. -/
theorem Loads.calls_eq {calls' : List Call} {r' : Loaded} (h : Loads shapes l t calls r)
    (h' : Loads shapes l t calls' r') : calls = calls' := by
  induction h generalizing calls' r' with
  | duplicate present =>
    obtain ⟨f, hf, hpath⟩ := present
    cases h' with
    | duplicate => rfl
    | leaf fresh => exact absurd hpath (fresh f hf)
    | nested fresh _ => exact absurd hpath (fresh f hf)
  | leaf fresh =>
    cases h' with
    | duplicate present =>
      obtain ⟨f, hf, hpath⟩ := present
      exact absurd hpath (fresh f hf)
    | leaf => rfl
  | nested fresh _ ih =>
    cases h' with
    | duplicate present =>
      obtain ⟨f, hf, hpath⟩ := present
      exact absurd hpath (fresh f hf)
    | nested _ below => rw [ih below]
  | refused reason =>
    cases h' with
    | refused => rfl
    | own nonempty _ => cases reason.symm.trans (takeMembers_eq_ok_iff.2 (.own nonempty))
    | shape unvisited found nonempty _ =>
      cases reason.symm.trans (takeMembers_eq_ok_iff.2 (.shape unvisited found nonempty))
  | own nonempty _ ih =>
    cases h' with
    | refused reason => cases reason.symm.trans (takeMembers_eq_ok_iff.2 (.own nonempty))
    | own _ loop => rw [ih loop]
  | shape unvisited found nonempty _ ih =>
    cases h' with
    | refused reason =>
      cases reason.symm.trans (takeMembers_eq_ok_iff.2 (.shape unvisited found nonempty))
    | shape _ found' _ loop =>
      cases found.symm.trans found'
      rw [ih loop]
  | done => cases h' with | done => rfl
  | unnamed invalid =>
    cases h' with
    | unnamed => rfl
    | failed named _ => cases invalid.symm.trans named
    | next named _ _ => cases invalid.symm.trans named
  | failed named first ih =>
    cases h' with
    | unnamed invalid => cases invalid.symm.trans named
    | failed named' first' =>
      cases named.symm.trans named'
      rw [ih first']
    | next named' first' _ =>
      cases named.symm.trans named'
      cases first.result_eq first'
  | next named first _ ihf ihr =>
    cases h' with
    | unnamed invalid => cases invalid.symm.trans named
    | failed named' first' =>
      cases named.symm.trans named'
      cases first.result_eq first'
    | next named' first' rest' =>
      cases named.symm.trans named'
      cases first.result_eq first'
      rw [ihf first', ihr rest']

/-! ## Every task comes to an end -/

/-- How much of the definition in hand a task has before it. -/
noncomputable def Task.weight : Task → Nat
  | .field _ d => 2 * sizeOf d
  | .members _ _ own _ => 2 * sizeOf own + 1
  | .each _ listed => 2 * sizeOf listed

/-- Members that are listed in place are not larger, and a step into a shape leaves fewer shapes
that are not being visited. -/
theorem Takes.weight_lt {visiting inside : List String} {path : FieldPath} {nesting : Nesting}
    {own listed : List FieldDefinition} {shape : Option String}
    (h : Takes shapes visiting own shape inside listed) :
    Prod.Lex (· < ·) (· < ·)
      (unvisited shapes inside, (Task.each (nesting.scope path) listed).weight)
      (unvisited shapes visiting, (Task.members path nesting own shape).weight) := by
  cases h with
  | own => exact .right _ (Nat.lt_succ_self _)
  | shape hs hf => exact .left _ _ (unvisited_append_lt (Table.mem_keys_of_find? hf) hs)

/-- Every task comes to an end. -/
theorem exists_loads (shapes : ShapeTable) (l : Loader) (t : Task) :
    ∃ calls r, Loads shapes l t calls r := by
  cases t with
  | field path d =>
    by_cases present : ∃ f ∈ l.fields, f.path = path
    · exact ⟨_, _, .duplicate present⟩
    have fresh : ∀ f ∈ l.fields, f.path ≠ path := fun f hf he => present ⟨f, hf, he⟩
    cases d with
    | leaf name type => exact ⟨_, _, .leaf fresh⟩
    | nested name nesting own shape =>
      obtain ⟨calls, r, below⟩ :=
        exists_loads shapes (l.add path nesting.kind) (.members path nesting own shape)
      exact ⟨_, _, .nested fresh below⟩
  | members path nesting own shape =>
    cases htake : takeMembers shapes l.visiting path own shape with
    | error e => exact ⟨_, _, .refused htake⟩
    | ok taken =>
      obtain ⟨inside, listed⟩ := taken
      have htakes := takeMembers_eq_ok_iff.1 htake
      obtain ⟨calls, r, loop⟩ :=
        exists_loads shapes { l with visiting := inside } (.each (nesting.scope path) listed)
      cases htakes with
      | own nonempty => exact ⟨_, _, .own nonempty loop⟩
      | shape unvisited found nonempty => exact ⟨_, _, .shape unvisited found nonempty loop⟩
  | each scope listed =>
    cases listed with
    | nil => exact ⟨_, _, .done⟩
    | cons d ds =>
      cases hpath : scope.path d.name with
      | error cause => exact ⟨_, _, .unnamed hpath⟩
      | ok path =>
        obtain ⟨calls, r, first⟩ := exists_loads shapes l (.field path d)
        rcases r with e | ⟨id, mid⟩
        · exact ⟨_, _, .failed hpath first⟩
        · have hmid := first.visiting_eq
          obtain ⟨later, r', rest⟩ := exists_loads shapes mid (.each scope ds)
          exact ⟨_, _, .next hpath first rest⟩
termination_by (unvisited shapes l.visiting, t.weight)
decreasing_by
  · refine .right _ ?_
    simp only [Task.weight, FieldDefinition.nested.sizeOf_spec]
    omega
  · exact htakes.weight_lt
  · refine .right _ ?_
    simp only [Task.weight, List.cons.sizeOf_spec]
    omega
  · rw [hmid]
    refine .right _ ?_
    simp only [Task.weight, List.cons.sizeOf_spec]
    omega

end ResourceDelta
