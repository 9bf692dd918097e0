import Mathlib.Data.List.Destutter
import ResourceDelta.Proofs.Comparison.Selection
import ResourceDelta.Proofs.Comparison.Wording
import ResourceDelta.Proofs.Data.Computation

/-!
# What a fragment records

A fragment holds one line for each place where a difference is recorded.  Read from top to bottom,
these lines name the fields that are compared in the order of their paths, and how often a field is
named depends on its kind alone.

* `recordedPaths?` — the paths that some lines record, one after the other.
* `programRecords` — the paths that a program may record, as they stand in its text.
* `recordedPaths?_lines` — these are the paths that the lines of the program record.
* `Outline.records_eq` — they are the picks of an outline, each as often as its kind asks for.
* `fragment_records` — the lines of a fragment that record, for a resource that has been built.
-/

set_option autoImplicit false

namespace ResourceDelta

/-! ## Records in a text -/

mutual

/-- The paths that a statement may record, in the order of its text. -/
def Statement.records : Statement → List FieldPath
  | .record path => [path]
  | .ifUnequal _ _ body => programRecords body
  | .ifOneNil _ mismatch present => programRecords mismatch ++ programRecords present

/-- The paths that some statements may record, in the order of their text. -/
def programRecords : List Statement → List FieldPath
  | [] => []
  | statement :: program => statement.records ++ programRecords program

end

/-- The path that is recorded, if that is what is said. -/
def Code.recorded? : Code → Option FieldPath
  | .said .record path => some path
  | _ => none

theorem Code.recorded?_eq_some_iff {c : Code} {path : FieldPath} :
    c.recorded? = some path ↔ c = .said .record path := by
  cases c with
  | closing => simp [recorded?]
  | said phrase p => cases phrase <;> simp [recorded?]

/-- The paths that some lines record, one after the other, if it can be told what each says. -/
def recordedPaths? (names : Names) (lines : List String) : Option (List FieldPath) := do
  let codes ← lines.mapM (Code.readLine? names)
  return codes.filterMap fun c => c.2.recorded?

/-- The line in which a thing is said at a level. -/
def Code.line (c : Nat × Code) : Line :=
  ⟨c.1, c.2.template⟩

mutual

theorem Statement.exists_codes (level : Nat) : ∀ s : Statement, ∃ codes : List (Nat × Code),
    s.lines level = codes.map Code.line ∧ (codes.filterMap fun c => c.2.recorded?) = s.records
  | .record path => ⟨[(level, .said .record path)], rfl, rfl⟩
  | .ifUnequal check path body => by
    obtain ⟨codes, hlines, hrecords⟩ := exists_codes (level + 1) body
    refine ⟨(level, .said (.unequal check) path) :: codes ++ [(level, .closing)], ?_, ?_⟩
    · rw [Statement.lines, hlines, List.map_append]
      rfl
    · rw [Statement.records, ← hrecords, List.filterMap_append]
      exact List.append_nil _
  | .ifOneNil path mismatch present => by
    obtain ⟨codes, hlines, hrecords⟩ := exists_codes (level + 1) mismatch
    obtain ⟨codes', hlines', hrecords'⟩ := exists_codes (level + 1) present
    refine ⟨(level, .said .oneNil path) :: codes ++ (level, .said .present path) :: codes' ++
      [(level, .closing)], ?_, ?_⟩
    · simp only [Statement.lines, hlines, hlines', List.map_append, List.map_cons, List.map_nil,
        List.cons_append]
      rfl
    · simp [Statement.records, ← hrecords, ← hrecords', Code.recorded?]

/-- The lines of a program say things one by one, and some of them that a path is recorded. -/
theorem exists_codes (level : Nat) : ∀ program : List Statement, ∃ codes : List (Nat × Code),
    programLines level program = codes.map Code.line ∧
      (codes.filterMap fun c => c.2.recorded?) = programRecords program
  | [] => ⟨[], rfl, rfl⟩
  | s :: program => by
    obtain ⟨codes, hlines, hrecords⟩ := Statement.exists_codes level s
    obtain ⟨codes', hlines', hrecords'⟩ := exists_codes level program
    refine ⟨codes ++ codes', ?_, ?_⟩
    · rw [programLines, hlines, hlines', List.map_append]
    · rw [programRecords, ← hrecords, ← hrecords', List.filterMap_append]

end

/-- **The lines of a program record the paths that it may record**, in the order of its text. -/
theorem recordedPaths?_lines (names : Names) (level : Nat) (program : List Statement) :
    recordedPaths? names ((programLines level program).map (Line.text names)) =
      some (programRecords program) := by
  obtain ⟨codes, hlines, hrecords⟩ := exists_codes level program
  have hone : ∀ c ∈ codes, Code.readLine? names ((Line.text names ∘ Code.line) c) = some (id c) :=
    fun c _ => Code.readLine?_text names c.1 c.2
  have hread : ((codes.map Code.line).map (Line.text names)).mapM (Code.readLine? names) =
      some codes := by
    rw [List.map_map, mapM_map_eq_some hone, List.map_id]
  unfold recordedPaths?
  rw [hlines, hread, ← hrecords]
  rfl

theorem programRecords_append (p q : List Statement) :
    programRecords (p ++ q) = programRecords p ++ programRecords q := by
  induction p with
  | nil => rfl
  | cons s p ih =>
    rw [List.cons_append, programRecords, programRecords, ih, List.append_assoc]

/-! ## How often a field is recorded -/

/-- How many places record a field of a kind: a single value or a map of strings has one for a value
that is missing on one side and one for two values that are unequal. -/
def TypeKind.recordCount : TypeKind → Nat
  | .optionalScalar _ => 2
  | .mapStringToString => 2
  | _ => 1

theorem TypeKind.recordCount_pos (kind : TypeKind) : 0 < kind.recordCount := by
  cases kind <;> simp [recordCount]

/-- The paths of picks, each as often as its kind asks for. -/
def repeatedPaths (picks : List (FieldPath × TypeKind)) : List FieldPath :=
  picks.flatMap fun c => List.replicate c.2.recordCount c.1

theorem records_whole (path : FieldPath) {kind : TypeKind} (h : kind ≠ .nestedStruct) :
    programRecords (Reading.statements.whole path kind) =
      repeatedPaths (Reading.picks.whole path kind) := by
  cases kind with
  | optionalScalar scalar => cases scalar <;> rfl
  | nestedStruct => exact absurd rfl h
  | listOfScalar scalar => cases scalar <;> rfl
  | listOfStruct => rfl
  | mapStringToString => rfl
  | mapOfStruct => rfl
  | byteSequence => rfl

/-- The statements of an outline record its picks, and there are none only if nothing is picked. -/
theorem Outline.records_eq {ignored : FieldPath → Bool} {scope : Scope} {os : Outline} :
    programRecords (os.read .statements ignored scope) =
        repeatedPaths (os.read .picks ignored scope) ∧
      (os.read .statements ignored scope = [] ↔ os.read .picks ignored scope = []) := by
  refine Outline.read_related
    (fun _ ss cs => programRecords ss = repeatedPaths cs ∧ (ss = [] ↔ cs = []))
    (fun _ _ => True) ?_ ?_ ?_ ?_ (fun _ _ => trivial : ∀ f ∈ os.fields noFlags scope 0, True)
  · intro scope
    exact ⟨rfl, by simp⟩
  · intro scope ss cs ss' cs' h h'
    refine ⟨?_, ?_⟩
    · rw [programRecords_append, h.1, h'.1, repeatedPaths, repeatedPaths, repeatedPaths,
        List.flatMap_append]
    · rw [List.append_eq_nil_iff, List.append_eq_nil_iff, h.2, h'.2]
  · intro scope n kind _ hkind
    refine ⟨records_whole (scope.extend n) hkind, ?_⟩
    simp [Reading.statements_isFaithful.whole_ne_nil _ hkind, Reading.picks]
  · intro scope n ss cs _ h
    cases cs with
    | nil =>
      rw [h.2.2 rfl]
      exact ⟨rfl, by simp [Reading.statements, Reading.picks, FieldTree.structStatements]⟩
    | cons c cs =>
      have hne : ss ≠ [] := by
        intro hss
        exact List.cons_ne_nil _ _ (h.2.1 hss)
      obtain ⟨s, ss, rfl⟩ := List.exists_cons_of_ne_nil hne
      refine ⟨?_, ?_⟩
      · show [scope.extend n] ++ programRecords (s :: ss) ++ [] =
          [scope.extend n] ++ repeatedPaths (c :: cs)
        rw [h.1, List.append_nil]
      · simp [Reading.statements, Reading.picks, FieldTree.structStatements]

/-! ## Repetitions -/

theorem mem_repeatedPaths {cs : List (FieldPath × TypeKind)} {p : FieldPath} :
    p ∈ repeatedPaths cs ↔ ∃ k, (p, k) ∈ cs := by
  unfold repeatedPaths
  simp only [List.mem_flatMap, List.mem_replicate]
  constructor
  · rintro ⟨⟨q, k⟩, hc, -, rfl⟩
    exact ⟨k, hc⟩
  · rintro ⟨k, hc⟩
    exact ⟨(p, k), hc, k.recordCount_pos.ne', rfl⟩

/-- Each path is repeated as often as its kind asks for. -/
theorem count_repeatedPaths {p : FieldPath} {k : TypeKind} :
    ∀ {cs : List (FieldPath × TypeKind)}, (cs.map Prod.fst).Nodup → (p, k) ∈ cs →
      (repeatedPaths cs).count p = k.recordCount
  | c :: cs, hnodup, h => by
    obtain ⟨hc, hcs⟩ := List.nodup_cons.1 hnodup
    show (List.replicate c.2.recordCount c.1 ++ repeatedPaths cs).count p = _
    rw [List.count_append]
    rcases List.mem_cons.1 h with rfl | h
    · have hzero : (repeatedPaths cs).count p = 0 := by
        rw [List.count_eq_zero, mem_repeatedPaths]
        rintro ⟨j, hj⟩
        exact hc (List.mem_map.2 ⟨(p, j), hj, rfl⟩)
      rw [List.count_replicate_self, hzero, Nat.add_zero]
    · have hne : c.1 ≠ p := by
        rintro rfl
        exact hc (List.mem_map.2 ⟨(c.1, k), h, rfl⟩)
      rw [count_repeatedPaths hcs h, List.count_replicate]
      simp [hne]

theorem destutter'_replicate_append (a : FieldPath) (l : List FieldPath) :
    ∀ n : Nat, (List.replicate n a ++ l).destutter' (· ≠ ·) a = l.destutter' (· ≠ ·) a
  | 0 => rfl
  | n + 1 => by
    rw [List.replicate_succ, List.cons_append, List.destutter'_cons_neg _ (by simp),
      destutter'_replicate_append a l n]

theorem destutter'_repeatedPaths : ∀ {cs : List (FieldPath × TypeKind)} {a : FieldPath},
    (a :: cs.map Prod.fst).Pairwise FieldPath.Precedes →
      (repeatedPaths cs).destutter' (· ≠ ·) a = a :: cs.map Prod.fst
  | [], _, _ => rfl
  | c :: cs, a, h => by
    obtain ⟨ha, hcs⟩ := List.pairwise_cons.1 h
    obtain ⟨n, hn⟩ := Nat.exists_eq_succ_of_ne_zero c.2.recordCount_pos.ne'
    have hne : a ≠ c.1 := (ha c.1 List.mem_cons_self).ne
    show (List.replicate c.2.recordCount c.1 ++ repeatedPaths cs).destutter' _ a = _
    rw [hn, List.replicate_succ, List.cons_append, List.destutter'_cons_pos _ hne,
      destutter'_replicate_append, destutter'_repeatedPaths hcs]
    rfl

/-- Without adjacent repetitions, the paths of ascending picks are left. -/
theorem destutter_repeatedPaths {cs : List (FieldPath × TypeKind)}
    (h : (cs.map Prod.fst).Pairwise FieldPath.Precedes) :
    (repeatedPaths cs).destutter (· ≠ ·) = cs.map Prod.fst := by
  cases cs with
  | nil => rfl
  | cons c cs =>
    obtain ⟨n, hn⟩ := Nat.exists_eq_succ_of_ne_zero c.2.recordCount_pos.ne'
    show (List.replicate c.2.recordCount c.1 ++ repeatedPaths cs).destutter _ = _
    rw [hn, List.replicate_succ, List.cons_append, List.destutter_cons',
      destutter'_replicate_append, destutter'_repeatedPaths h]
    rfl

/-! ## What is recorded -/

/-- Some paths are those that every fragment for a resource records, and they are those of the
fields of the Spec that are compared. -/
structure RecordsCompared (resource : Resource) (recorded : List FieldPath) : Prop where
  /-- The lines of every fragment record these paths, in this order. -/
  fragment : ∀ (target : Flavor) (operands : Operands) (indent : Nat), ∃ lines,
    IsFragment resource target operands indent lines ∧
      recordedPaths? (operands.namesBelow target.specRoot) lines = some recorded
  /-- Adjacent repetitions apart, they are strictly ascending. -/
  ascending : (recorded.destutter (· ≠ ·)).Pairwise FieldPath.Precedes
  /-- They are the sorted paths of the fields that are compared. -/
  collapsed : recorded.destutter (· ≠ ·) =
    FieldPath.sort ((resource.spec.fields.toList.filter resource.spec.IsCompared).map Field.path)
  /-- How often a field is recorded depends on its kind. -/
  count : ∀ f ∈ resource.spec.fields, resource.spec.IsCompared f →
    recorded.count f.path = f.kind.recordCount
  /-- Nothing else is recorded. -/
  only : ∀ p ∈ recorded, ∃ f ∈ resource.spec.fields, f.path = p ∧ resource.spec.IsCompared f

/-- **A fragment records the fields of the Spec that are compared, in the order of their paths.** -/
theorem fragment_records {definition : ResourceDefinition} {overrides : Overrides}
    {flavor : Flavor} {resource : Resource}
    (h : Resource.build definition overrides flavor = .ok resource) :
    ∃ recorded, RecordsCompared resource recorded := by
  obtain ⟨⟨os, -, hos⟩, -⟩ := Resource.build_outlines h
  have hrecords : programRecords (os.read .statements resource.spec.ignores .top) =
      repeatedPaths (os.read .picks resource.spec.ignores .top) := Outline.records_eq.1
  have hascending := hos.picks_ascending
  refine ⟨programRecords (os.read .statements resource.spec.ignores .top), ?_, ?_, ?_, ?_, ?_⟩
  · intro target operands indent
    exact ⟨_, hos.isFragment target operands indent, recordedPaths?_lines _ indent _⟩
  · rw [hrecords, destutter_repeatedPaths hascending]
    exact hascending
  · rw [hrecords, destutter_repeatedPaths hascending, hos.picks_eq_sort]
  · intro f hf hcompared
    rw [hrecords]
    exact count_repeatedPaths (hascending.imp FieldPath.Precedes.ne)
      (hos.mem_picks_iff.2 ⟨f, hf, rfl, rfl, hcompared⟩)
  · intro p hp
    rw [hrecords, mem_repeatedPaths] at hp
    obtain ⟨k, hk⟩ := hp
    obtain ⟨f, hf, hpath, -, hcompared⟩ := hos.mem_picks_iff.1 hk
    exact ⟨f, hf, hpath, hcompared⟩

/-- Of the second endpoint of the sample, `limits` is left out although it is not ignored itself. -/
theorem fragment_records_store : ∃ resource,
    Resource.build storeDefinition storeOverrides .ack = .ok resource ∧
    ((resource.spec.fields.toList.filter resource.spec.IsCompared).map fun f => f.path.text) =
      ["name", "main", "main.labels", "main.limits", "main.limits.rate", "main.address", "backup",
        "backup.address", "rules"] ∧
    ∃ recorded, RecordsCompared resource recorded := by
  obtain ⟨resource, h⟩ := build_store
  refine ⟨resource, h, ?_, fragment_records h⟩
  have hpaths : (Resource.build storeDefinition storeOverrides .ack).map (fun r =>
      (r.spec.fields.toList.filter r.spec.IsCompared).map fun f => f.path.text) =
        .ok ["name", "main", "main.labels", "main.limits", "main.limits.rate", "main.address",
          "backup", "backup.address", "rules"] := by cbv
  rw [h] at hpaths
  exact Except.ok.inj hpaths

end ResourceDelta
