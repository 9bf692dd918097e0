import ResourceDelta.Proofs.Comparison.ReadBack
import ResourceDelta.Proofs.Comparison.Selection
import ResourceDelta.Proofs.Comparison.Semantics

/-!
# Correctness of comparison programs

The statements of an outline are nested as its structs are: what is said about the members of a
struct stands where the struct is known to be present on both sides.  So a run never looks into
nil, and it records what it should.

* `Differ` — when two Specs differ in a field.
* `Agree` — what statements record is what was picked and differs; kept by each kind of field.
* `Outline.run_eq` — on conforming values, the statements of an outline agree with its picks.
* `comparison_correct` — the fragments of a resource that has been built are read as one program,
  which runs into no fault and records exactly the fields that are compared and differ.
-/

set_option autoImplicit false

namespace ResourceDelta

section

variable {α : Type} {library : Library α} {differ : TypeKind → α → α → Bool} {x y : SpecValue α}

/-! ## Differences -/

/-- The check of a kind finds the values that differ. -/
theorem Library.Decides.unequal_eq (h : library.Decides differ) {kind : TypeKind} {check : Check}
    (hcheck : kind.check? = some check) : library.unequal check = differ kind := by
  cases kind with
  | optionalScalar scalar =>
    cases scalar with
    | timestamp =>
      cases hcheck
      exact h.times_eq
    | string | integer | float | boolean =>
      cases hcheck
      exact h.targets_eq _ (by decide)
  | nestedStruct => cases hcheck
  | listOfScalar scalar =>
    cases scalar with
    | string =>
      cases hcheck
      exact h.stringLists_eq
    | integer | float | boolean | timestamp =>
      cases hcheck
      exact h.scalarLists_eq _ (by decide)
  | listOfStruct =>
    cases hcheck
    exact h.structLists_eq
  | mapStringToString =>
    cases hcheck
    exact h.stringMaps_eq
  | mapOfStruct =>
    cases hcheck
    exact h.structMaps_eq
  | byteSequence =>
    cases hcheck
    exact h.bytes_eq

/-- Two values of a field differ: one of them is nil, or both are compared as a whole and found
unequal. -/
def Datum.differs (differ : TypeKind → α → α → Bool) (kind : TypeKind) : Datum α → Datum α → Bool
  | .content a, .content b => differ kind a b
  | d, e => d.isNil != e.isNil

/-- Two Specs have values at a path, and these differ. -/
def differsAt (differ : TypeKind → α → α → Bool) (x y : SpecValue α) (c : FieldPath × TypeKind) :
    Bool :=
  match x.access c.1, y.access c.1 with
  | .ok d, .ok e => d.differs differ c.2 e
  | _, _ => false

variable {path : FieldPath} {d e : Datum α}

theorem differsAt_eq {kind : TypeKind} (hx : x.access path = .ok d) (hy : y.access path = .ok e) :
    differsAt differ x y (path, kind) = d.differs differ kind e := by
  unfold differsAt
  simp only [hx, hy]

theorem run_record (hx : x.access path = .ok d) (hy : y.access path = .ok e) :
    runProgram library x y [.record path] = .ok [path] := by
  rw [runProgram_singleton, Statement.run, hx, hy]
  rfl

theorem run_ifUnequal {a b : α} (check : Check) (hx : x.access path = .ok (.content a))
    (hy : y.access path = .ok (.content b)) :
    runProgram library x y [.ifUnequal check path [.record path]] =
      .ok (if library.unequal check a b then [path] else []) := by
  rw [runProgram_singleton, Statement.run, hx, hy]
  show (if library.unequal check a b then runProgram library x y [.record path] else .ok []) = _
  rw [run_record hx hy]
  split <;> rfl

theorem run_ifOneNil (h : library.Decides differ) {mismatch present : List Statement}
    (hx : x.access path = .ok d) (hy : y.access path = .ok e) :
    runProgram library x y [.ifOneNil path mismatch present] =
      if d.isNil != e.isNil then runProgram library x y mismatch
      else if !d.isNil && !e.isNil then runProgram library x y present
      else .ok [] := by
  rw [runProgram_singleton, Statement.run, hx, hy, ← h.nilDifference_eq]
  rfl

/-- The statements of a field that is compared as a whole record it if its values differ. -/
theorem run_leafStatements (h : library.Decides differ) {kind : TypeKind} {check : Check}
    (hcheck : kind.check? = some check) (hx : x.access path = .ok d) (hy : y.access path = .ok e)
    (hd : d.Fits kind) (he : e.Fits kind) :
    runProgram library x y (FieldTree.leafStatements (.bare path kind) check) =
      .ok (if d.differs differ kind e then [path] else []) := by
  have hkind : kind ≠ .nestedStruct := by
    rintro rfl
    cases hcheck
  have hbody : ∀ {a b : α}, d = .content a → e = .content b →
      runProgram library x y [.ifUnequal check path [.record path]] =
        .ok (if d.differs differ kind e then [path] else []) := by
    rintro a b rfl rfl
    rw [run_ifUnequal check hx hy, Datum.differs, h.unequal_eq hcheck]
  unfold FieldTree.leafStatements
  by_cases hn : (Field.bare path kind).kind.isNilable = true
  · rw [if_pos hn]
    show runProgram library x y [.ifOneNil path _ _] = _
    rw [run_ifOneNil h hx hy]
    cases d with
    | nil =>
      cases e with
      | nil => rfl
      | content b => exact run_record hx hy
      | struct members => exact absurd he hkind
    | content a =>
      cases e with
      | nil => exact run_record hx hy
      | content b => exact hbody rfl rfl
      | struct members => exact absurd he hkind
    | struct members => exact absurd hd hkind
  · rw [if_neg hn]
    cases d with
    | nil => exact absurd (mayBeNil_iff.1 hd) hn
    | content a =>
      cases e with
      | nil => exact absurd (mayBeNil_iff.1 he) hn
      | content b => exact hbody rfl rfl
      | struct members => exact absurd he hkind
    | struct members => exact absurd hd hkind

theorem differsAt_eq_false {scope : Scope} {n : FieldName} {kind : TypeKind}
    (h : ¬ (scope.Entered x ∧ scope.Entered y)) :
    differsAt differ x y (scope.extend n, kind) = false := by
  unfold differsAt
  cases hx : x.access (scope.extend n) with
  | error fault => rfl
  | ok d =>
    cases hy : y.access (scope.extend n) with
    | error fault => rfl
    | ok e =>
      exact absurd ⟨SpecValue.access_member_iff.1 ⟨d, hx⟩, SpecValue.access_member_iff.1 ⟨e, hy⟩⟩ h

/-! ## Running the statements of an outline -/

/-- Statements about the members of a scope record the picks that differ.  If the scope is not
entered on both sides, the statements are not reached, and no pick differs. -/
structure Agree (library : Library α) (differ : TypeKind → α → α → Bool) (x y : SpecValue α)
    (scope : Scope) (ss : List Statement) (cs : List (FieldPath × TypeKind)) : Prop where
  nil_iff : ss = [] ↔ cs = []
  run_eq : scope.Entered x ∧ scope.Entered y →
    runProgram library x y ss = .ok ((cs.filter (differsAt differ x y)).map Prod.fst)
  same : ¬ (scope.Entered x ∧ scope.Entered y) → ∀ c ∈ cs, differsAt differ x y c = false

theorem Agree.nil (scope : Scope) : Agree library differ x y scope [] [] :=
  ⟨by simp, fun _ => rfl, fun _ c hc => absurd hc List.not_mem_nil⟩

theorem Agree.append {scope : Scope} {ss ss' : List Statement}
    {cs cs' : List (FieldPath × TypeKind)} (h : Agree library differ x y scope ss cs)
    (h' : Agree library differ x y scope ss' cs') :
    Agree library differ x y scope (ss ++ ss') (cs ++ cs') := by
  refine ⟨?_, fun hin => ?_, fun hout => ?_⟩
  · rw [List.append_eq_nil_iff, List.append_eq_nil_iff, h.nil_iff, h'.nil_iff]
  · rw [runProgram_append (h.run_eq hin) (h'.run_eq hin), List.filter_append, List.map_append]
  · exact List.forall_mem_append.2 ⟨h.same hout, h'.same hout⟩

theorem Agree.whole (h : library.Decides differ) {scope : Scope} {n : FieldName} {kind : TypeKind}
    (hx : ∀ d, x.access (scope.extend n) = .ok d → d.Fits kind)
    (hy : ∀ e, y.access (scope.extend n) = .ok e → e.Fits kind) (hkind : kind ≠ .nestedStruct) :
    Agree library differ x y scope (Reading.statements.whole (scope.extend n) kind)
      (Reading.picks.whole (scope.extend n) kind) := by
  obtain ⟨check, hcheck⟩ := TypeKind.exists_check hkind
  have hstatements : Reading.statements.whole (scope.extend n) kind =
      FieldTree.leafStatements (.bare (scope.extend n) kind) check := by
    simp only [Reading.statements, hcheck]
  rw [hstatements]
  refine ⟨?_, fun hin => ?_, fun hout c hc => ?_⟩
  · have hne : FieldTree.leafStatements (.bare (scope.extend n) kind) check ≠ [] := by
      unfold FieldTree.leafStatements
      simp only
      split <;> exact List.cons_ne_nil _ _
    simp [hne, Reading.picks]
  · obtain ⟨d, hd⟩ := SpecValue.access_member_iff.2 hin.1
    obtain ⟨e, he⟩ := SpecValue.access_member_iff.2 hin.2
    rw [run_leafStatements h hcheck hd he (hx d hd) (hy e he), ← differsAt_eq hd he]
    simp only [Reading.picks, List.filter_cons, List.filter_nil]
    split <;> rfl
  · rw [List.mem_singleton.1 hc]
    exact differsAt_eq_false hout

theorem Agree.struct (hlibrary : library.Decides differ) {scope : Scope} {n : FieldName}
    {ss : List Statement} {cs : List (FieldPath × TypeKind)}
    (hx : ∀ d, x.access (scope.extend n) = .ok d → d.Fits .nestedStruct)
    (hy : ∀ e, y.access (scope.extend n) = .ok e → e.Fits .nestedStruct)
    (h : Agree library differ x y (.struct (scope.extend n)) ss cs) :
    Agree library differ x y scope (Reading.statements.struct (scope.extend n) ss)
      (Reading.picks.struct (scope.extend n) cs) := by
  cases cs with
  | nil =>
    rw [h.nil_iff.2 rfl]
    exact .nil scope
  | cons c cs =>
    obtain ⟨s, ss, rfl⟩ := List.exists_cons_of_ne_nil (h.nil_iff.not.2 (List.cons_ne_nil c cs))
    show Agree library differ x y scope
      [.ifOneNil (scope.extend n) [.record (scope.extend n)] (s :: ss)]
      ((scope.extend n, .nestedStruct) :: c :: cs)
    refine ⟨by simp, fun hin => ?_, fun hout => ?_⟩
    · obtain ⟨d, hd⟩ := SpecValue.access_member_iff.2 hin.1
      obtain ⟨e, he⟩ := SpecValue.access_member_iff.2 hin.2
      rw [run_ifOneNil hlibrary hd he, List.filter_cons, differsAt_eq hd he]
      by_cases hboth : x.HasStruct (scope.extend n) ∧ y.HasStruct (scope.extend n)
      · obtain ⟨⟨ms, hms⟩, ms', hms'⟩ := hboth
        rw [hms] at hd
        rw [hms'] at he
        cases hd
        cases he
        exact h.run_eq ⟨⟨ms, hms⟩, ms', hms'⟩
      · -- The members are not reached, so that only the struct itself may differ.
        have hnone : (c :: cs).filter (differsAt differ x y) = [] := by
          rw [List.filter_eq_nil_iff]
          intro c' hc'
          rw [h.same hboth c' hc']
          exact Bool.false_ne_true
        rw [hnone]
        cases d with
        | nil =>
          cases e with
          | nil => rfl
          | content b => exact absurd rfl (hy _ he)
          | struct ms' => exact run_record hd he
        | content a => exact absurd rfl (hx _ hd)
        | struct ms =>
          cases e with
          | nil => exact run_record hd he
          | content b => exact absurd rfl (hy _ he)
          | struct ms' => exact absurd ⟨⟨ms, hd⟩, ms', he⟩ hboth
    · have hbelow : ¬ (x.HasStruct (scope.extend n) ∧ y.HasStruct (scope.extend n)) := by
        rintro ⟨⟨ms, hms⟩, ms', hms'⟩
        exact hout ⟨SpecValue.access_member_iff.1 ⟨_, hms⟩, SpecValue.access_member_iff.1 ⟨_, hms'⟩⟩
      exact List.forall_mem_cons.2 ⟨differsAt_eq_false hout, h.same hbelow⟩

/-- **On conforming values, the statements of an outline record the picks that differ.** -/
theorem Outline.run_eq (hlibrary : library.Decides differ) {t : FieldTree} {os : Outline}
    (h : t.Outlines os) (hx : x.Conforms t)
    (hy : y.Conforms t) :
    runProgram library x y (os.read .statements t.ignores .top) =
      .ok (((os.read .picks t.ignores .top).filter (differsAt differ x y)).map Prod.fst) := by
  have hfits : ∀ f ∈ os.fields t.flagsAt .top 0,
      (∀ d, x.access f.path = .ok d → d.Fits f.kind) ∧
        ∀ e, y.access f.path = .ok e → e.Fits f.kind := by
    intro f hf
    rw [← h.fields_eq, Array.mem_toList_iff] at hf
    exact ⟨hx f hf, hy f hf⟩
  have hagree : Agree library differ x y .top (os.read .statements t.ignores .top)
      (os.read .picks t.ignores .top) :=
    Outline.read_related (Agree library differ x y)
      (fun path kind => (∀ d, x.access path = .ok d → d.Fits kind) ∧
        ∀ e, y.access path = .ok e → e.Fits kind)
      Agree.nil Agree.append (fun hf => Agree.whole hlibrary hf.1 hf.2)
      (fun hf => Agree.struct hlibrary hf.1 hf.2) hfits
  exact hagree.run_eq ⟨trivial, trivial⟩

/-! ## Correctness -/

/-- The structs around a field are present on both sides, and either one of its two values is nil
and the other is not, or both are compared as a whole and differ as values of the field's kind. -/
def Differ (differ : TypeKind → α → α → Bool) (x y : SpecValue α) (f : Field) : Prop :=
  (∀ q ∈ f.path.ancestors, x.HasStruct q ∧ y.HasStruct q) ∧
    ∃ d e, x.access f.path = .ok d ∧ y.access f.path = .ok e ∧
      (d.isNil ≠ e.isNil ∨
        ∃ a b, d = .content a ∧ e = .content b ∧ differ f.kind a b = true)

theorem Datum.differs_iff {kind : TypeKind} : d.differs differ kind e = true ↔
    d.isNil ≠ e.isNil ∨ ∃ a b, d = .content a ∧ e = .content b ∧ differ kind a b = true := by
  cases d <;> cases e <;> simp [Datum.differs, Datum.isNil]

theorem differsAt_iff {f : Field} :
    differsAt differ x y (f.path, f.kind) = true ↔ Differ differ x y f := by
  unfold differsAt Differ
  constructor
  · intro h
    split at h
    · rename_i d e hd he
      refine ⟨fun q hq => ⟨SpecValue.hasStruct_of_access hd q hq,
        SpecValue.hasStruct_of_access he q hq⟩, d, e, hd, he, Datum.differs_iff.1 h⟩
    · cases h
  · rintro ⟨-, d, e, hd, he, h⟩
    simp only [hd, he]
    exact Datum.differs_iff.2 h

end

/-- **Fragments are correct.**  The fragments for a resource that has been built are all read as one
program.  With a library that works, it runs on all conforming values without a fault, and the paths
that it records, each once and in ascending order, are those of the compared fields in which the
values differ. -/
theorem comparison_correct {definition : ResourceDefinition} {overrides : Overrides}
    {flavor : Flavor} {resource : Resource}
    (h : Resource.build definition overrides flavor = .ok resource) :
    ∃ program : List Statement,
      (∀ (target : Flavor) (operands : Operands) (indent : Nat), ∃ lines,
        IsFragment resource target operands indent lines ∧
          readProgram? (operands.namesBelow target.specRoot) indent lines = some program) ∧
      ∀ (α : Type) (library : Library α) (differ : TypeKind → α → α → Bool),
        library.Decides differ → ∀ x y : SpecValue α,
          x.Conforms resource.spec → y.Conforms resource.spec →
          ∃ recorded, runProgram library x y program = .ok recorded ∧ recorded.Nodup ∧
            recorded.Pairwise FieldPath.Precedes ∧
            ∀ p, p ∈ recorded ↔ ∃ f ∈ resource.spec.fields, f.path = p ∧
              resource.spec.IsCompared f ∧ Differ differ x y f := by
  obtain ⟨⟨os, -, hos⟩, -⟩ := Resource.build_outlines h
  refine ⟨os.read .statements resource.spec.ignores .top, ?_, ?_⟩
  · intro target operands indent
    exact ⟨_, hos.isFragment target operands indent, readProgram?_eq_some_iff.2 rfl⟩
  · intro α library differ hlibrary x y hx hy
    have hascending := hos.picks_ascending.sublist
      ((List.filter_sublist (p := differsAt differ x y)).map Prod.fst)
    refine ⟨_, Outline.run_eq hlibrary hos hx hy, hascending.imp FieldPath.Precedes.ne,
      hascending, ?_⟩
    intro p
    simp only [List.mem_map, List.mem_filter]
    constructor
    · rintro ⟨⟨q, k⟩, ⟨hpick, hdiffers⟩, rfl⟩
      obtain ⟨f, hf, rfl, rfl, hcompared⟩ := hos.mem_picks_iff.1 hpick
      exact ⟨f, hf, rfl, hcompared, differsAt_iff.1 hdiffers⟩
    · rintro ⟨f, hf, rfl, hcompared, hdiffer⟩
      exact ⟨(f.path, f.kind), ⟨hos.mem_picks_iff.2 ⟨f, hf, rfl, rfl, hcompared⟩,
        differsAt_iff.2 hdiffer⟩, rfl⟩

/-- A store of which nothing is present but its rules. -/
def bareStore : SpecValue Nat := fun n =>
  if n.text = "rules" then .content 0 else .nil

/-- A store with a name and a first endpoint. -/
def namedStore : SpecValue Nat := fun n =>
  if n.text = "rules" then .content 0
  else if n.text = "name" then .content 1
  else if n.text = "main" then .struct fun m => if m.text = "address" then .content 2 else .nil
  else .nil

/-- The library where values are numbers. -/
def numberLibrary : Library Nat :=
  ⟨fun _ a b => a != b, fun d e => d.isNil != e.isNil⟩

theorem numberLibrary_decides : numberLibrary.Decides fun _ a b => a != b :=
  ⟨fun _ _ => rfl, fun _ _ => rfl, rfl, rfl, fun _ _ => rfl, rfl, rfl, rfl, rfl⟩

theorem comparison_correct_store : ∃ resource,
    Resource.build storeDefinition storeOverrides .ack = .ok resource ∧
    bareStore.Conforms resource.spec ∧ namedStore.Conforms resource.spec ∧
    ∃ lines program recorded,
      IsFragment resource .crossplane .standard 1 lines ∧
      readProgram? (Operands.standard.namesBelow ".Spec.ForProvider") 1 lines = some program ∧
      runProgram numberLibrary bareStore namedStore program = .ok recorded ∧
      ∀ p, p ∈ recorded ↔ ∃ f ∈ resource.spec.fields, f.path = p ∧
        resource.spec.IsCompared f ∧ Differ (fun _ a b => a != b) bareStore namedStore f := by
  obtain ⟨resource, h⟩ := build_store
  have hconform : (Resource.build storeDefinition storeOverrides .ack).map (fun r =>
      decide (bareStore.Conforms r.spec) && decide (namedStore.Conforms r.spec)) = .ok true := by
    cbv
  rw [h] at hconform
  have hconform := Except.ok.inj hconform
  rw [Bool.and_eq_true, decide_eq_true_eq, decide_eq_true_eq] at hconform
  obtain ⟨hbare, hnamed⟩ := hconform
  obtain ⟨program, hfragment, hrun⟩ := comparison_correct h
  obtain ⟨lines, hlines, hread⟩ := hfragment .crossplane .standard 1
  obtain ⟨recorded, hrecorded, -, -, hmem⟩ :=
    hrun Nat numberLibrary _ numberLibrary_decides bareStore namedStore hbare hnamed
  exact ⟨resource, h, hbare, hnamed, lines, program, recorded, hlines, hread, hrecorded, hmem⟩

end ResourceDelta
