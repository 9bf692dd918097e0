import ResourceDelta.Proofs.FieldTree.Lookup
import ResourceDelta.Proofs.Schema.Rearrangement

/-!
# Inserting a field into definitions

One definition is inserted into a list, or into a list of members below it that is listed in place.
What is described then is the old outline with one field more, at one place.

* `Inserts` — one definition has been inserted into another list, and the segments that lead to it.
* `Outline.Inserted` — so has one field into an outline.
* `Describes.inserted` — what two such lists describe differs by one field.
* `Outline.Inserted.paths_perm` — the new paths are that of the field and those below it.
-/

set_option autoImplicit false

namespace ResourceDelta

/-- The definition `new` has been inserted somewhere into a list or into a list of members in place
below it, and the segments lead to it from there. -/
inductive Inserts (new : FieldDefinition) :
    List Segment → (before after : List FieldDefinition) → Prop
  | here {ds : List FieldDefinition} : Inserts new [.field new.name] ds (new :: ds)
  | after {d : FieldDefinition} {ss : List Segment} {ds ds' : List FieldDefinition}
      (tail : Inserts new ss ds ds') : Inserts new ss (d :: ds) (d :: ds')
  | inside {name : String} {nesting : Nesting} {ss : List Segment}
      {own own' ds : List FieldDefinition} (below : Inserts new ss own own') :
      Inserts new (.field name :: (nesting.gap ++ ss)) (.nested name nesting own none :: ds)
        (.nested name nesting own' none :: ds)

namespace Outline

/-- A field has been inserted somewhere into an outline that stands in a scope; `path` is its
path. -/
inductive Inserted (path : FieldPath) : Scope → (before after : Outline) → Prop
  | here {scope : Scope} {a : Item} {os : Outline} (isPath : path = scope.extend a.name) :
      Inserted path scope os (a.before os)
  | after {scope : Scope} {b : Item} {os os' : Outline} (tail : Inserted path scope os os') :
      Inserted path scope (b.before os) (b.before os')
  | inside {scope : Scope} {name : FieldName} {nesting : Nesting} {members members' rest : Outline}
      (below : Inserted path (nesting.scope (scope.extend name)) members members') :
      Inserted path scope (.nested name nesting members rest) (.nested name nesting members' rest)

/-- Before the paths of what follows a field stand its own and those below it. -/
theorem exists_paths_before (scope : Scope) (a : Item) : ∃ below, ∀ rest : Outline,
    (a.before rest).paths scope = scope.extend a.name :: below ++ rest.paths scope := by
  cases a with
  | leaf name type => exact ⟨[], fun _ => rfl⟩
  | nested name nesting members => exact ⟨_, fun _ => rfl⟩

namespace Inserted

variable {path : FieldPath} {scope : Scope} {os os' : Outline}

/-- The new paths are that of the inserted field and those below it. -/
theorem paths_perm (h : Inserted path scope os os') :
    ∃ below, (os'.paths scope).Perm (path :: below ++ os.paths scope) := by
  induction h with
  | @here scope a os isPath =>
    obtain ⟨below, hbelow⟩ := exists_paths_before scope a
    exact ⟨below, by rw [hbelow, isPath]⟩
  | @after scope b os os' _ ih =>
    obtain ⟨below, ih⟩ := ih
    obtain ⟨own, hown⟩ := exists_paths_before scope b
    refine ⟨below, ?_⟩
    rw [hown, hown]
    exact (ih.append_left _).trans (List.perm_append_comm_assoc _ _ _)
  | @inside scope name nesting members members' rest _ ih =>
    obtain ⟨below, ih⟩ := ih
    refine ⟨below, ?_⟩
    have hinside := (ih.append_right (rest.paths scope)).cons (scope.extend name)
    rw [List.append_assoc] at hinside
    exact hinside.trans List.perm_middle.symm

theorem mem_paths (h : Inserted path scope os os') : path ∈ os'.paths scope := by
  obtain ⟨below, hperm⟩ := h.paths_perm
  exact hperm.mem_iff.2 List.mem_cons_self

/-- In a proper outline, the path of the inserted field is new. -/
theorem not_mem_paths (h : Inserted path scope os os') (hp : os'.IsProper) :
    path ∉ os.paths scope := by
  obtain ⟨below, hperm⟩ := h.paths_perm
  have hnodup : (os'.paths scope).Nodup := by
    rw [← map_path_fields (fun _ => none) scope 0]
    exact paths_nodup hp
  have hnew := (hperm.nodup_iff.1 hnodup)
  rw [List.cons_append, List.nodup_cons] at hnew
  exact fun hmem => hnew.1 (List.mem_append_right _ hmem)

end Inserted

end Outline

namespace Describes

variable {shapes : ShapeTable} {new : FieldDefinition} {ss : List Segment}
  {ds ds' : List FieldDefinition} {os os' : Outline}

/-- **What two lists describe differs by one field if the lists differ by one definition.** -/
theorem inserted (hi : Inserts new ss ds ds') (h : Describes shapes ds os)
    (h' : Describes shapes ds' os') (scope : Scope) :
    ∃ path : FieldPath, path.segments = scope.segments ++ ss ∧
      Outline.Inserted path scope os os' := by
  induction hi generalizing os os' scope with
  | here =>
    obtain ⟨a, rest, rfl, ha, hrest⟩ := cons_iff.1 h'
    obtain rfl := hrest.unique h
    have hname : new.name = a.name.text := by
      have hnames := ha.names_eq
      rw [Outline.names_before] at hnames
      exact List.head_eq_of_cons_eq hnames
    refine ⟨scope.extend a.name, ?_, .here rfl⟩
    rw [scope.segments_extend, hname]
  | after _ ih =>
    obtain ⟨b, rest, rfl, hb, hrest⟩ := cons_iff.1 h
    obtain ⟨-, rest', -, -, hrest'⟩ := cons_iff.1 h'
    obtain rfl := h'.unique (cons_iff.2 ⟨b, rest', rfl, hb, hrest'⟩)
    obtain ⟨path, hpath, hos⟩ := ih hrest hrest' scope
    exact ⟨path, hpath, .after hos⟩
  | @inside name nesting _ _ _ _ _ ih =>
    cases h with
    | inPlace isName _ hbelow hrest =>
      cases h' with
      | inPlace _ _ hbelow' hrest' =>
        obtain rfl := hrest.unique hrest'
        obtain ⟨path, hpath, hos⟩ := ih hbelow hbelow' (nesting.scope (scope.extend ⟨name, isName⟩))
        refine ⟨path, ?_, .inside hos⟩
        rw [hpath, nesting.segments_scope, List.append_assoc]
        rfl

end Describes

end ResourceDelta
