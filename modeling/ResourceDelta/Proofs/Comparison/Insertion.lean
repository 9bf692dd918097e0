import ResourceDelta.Proofs.Comparison.Deletion
import ResourceDelta.Proofs.Comparison.Indentation
import ResourceDelta.Proofs.Comparison.Rearrangement
import ResourceDelta.Proofs.Comparison.Template
import ResourceDelta.Proofs.Schema.Insertion

/-!
# Fragments after a field has been inserted

A field that is inserted into a definition takes its place among its siblings by name, and may keep
structs in the comparison that were left out before.  All of this shows in one place of a fragment.

* `joinByName_split` — what is made of one of some siblings stands between what is made of others.
* `AddsLines` — a program has the lines of another, and one run of lines more.
* `Outline.Inserted.read_addsLines` — so it is after a field has been inserted into an outline.
* `FieldTree.Outlines.isLeftOut_iff` — nothing of a field is compared if it is in elements, if it is
  ignored, or if all leaves at or below it are.
* `compareResource_inserted` — the fragments before and after a field has been inserted.
-/

set_option autoImplicit false

namespace ResourceDelta

/-! ## One of some siblings -/

/-- What is made of one of some siblings stands between what is made of others, whatever it is. -/
theorem joinByName_split {α : Type} {a b : List (String × List α)} {name : String}
    (h : ((a ++ (name, []) :: b).map Prod.fst).Nodup) : ∃ l r : List α,
      joinByName (a ++ b) = l ++ r ∧
        ∀ xs : List α, joinByName (a ++ (name, xs) :: b) = l ++ xs ++ r := by
  have hsorted := pairwise_mergeSort_names h
  have hperm := List.mergeSort_perm (a ++ (name, []) :: b) fun x y => x.1 ≤ y.1
  obtain ⟨sl, sr, hsplit⟩ : ∃ sl sr, (a ++ (name, ([] : List α)) :: b).mergeSort
      (fun x y => x.1 ≤ y.1) = sl ++ (name, []) :: sr := by
    refine List.append_of_mem (hperm.mem_iff.2 ?_)
    exact List.mem_append_right _ List.mem_cons_self
  rw [hsplit] at hsorted hperm
  -- the others stand in order among themselves, and so they do around any part with that name
  have hothers : (sl ++ sr).Perm (a ++ b) :=
    List.Perm.cons_inv (List.perm_middle.symm.trans (hperm.trans List.perm_middle))
  have hnames : ∀ xs : List α, (sl ++ (name, xs) :: sr).Pairwise fun x y => x.1 < y.1 := by
    intro xs
    rw [← List.pairwise_map (f := Prod.fst) (R := (· < ·))] at hsorted ⊢
    simpa only [List.map_append, List.map_cons] using hsorted
  refine ⟨sl.flatMap Prod.snd, sr.flatMap Prod.snd, ?_, fun xs => ?_⟩
  · have hsub : ((a ++ b).map Prod.fst).Nodup :=
      h.sublist (((List.sublist_cons_self _ b).append_left a).map Prod.fst)
    have hleft : (sl ++ sr).Pairwise fun x y => x.1 < y.1 :=
      (hnames []).sublist ((List.sublist_cons_self _ sr).append_left sl)
    unfold joinByName
    rw [eq_of_ascending_names ((List.mergeSort_perm _ _).trans hothers.symm)
      (pairwise_mergeSort_names hsub) hleft, List.flatMap_append]
  · have hpart : (sl ++ (name, xs) :: sr).Perm (a ++ (name, xs) :: b) :=
      List.perm_middle.trans ((hothers.cons _).trans List.perm_middle.symm)
    have hxs : ((a ++ (name, xs) :: b).map Prod.fst).Nodup := by
      simpa only [List.map_append, List.map_cons] using h
    unfold joinByName
    rw [eq_of_ascending_names ((List.mergeSort_perm _ _).trans hpart.symm)
      (pairwise_mergeSort_names hxs) (hnames xs), List.flatMap_append, List.flatMap_cons,
      List.append_assoc]

/-! ## One run of lines -/

theorem programLines_ne_nil {level : Nat} {p : List Statement} (h : p ≠ []) :
    programLines level p ≠ [] := by
  obtain ⟨s, p, rfl⟩ := List.exists_cons_of_ne_nil h
  cases s <;> simp [programLines, Statement.lines]

theorem statements_struct (outer : FieldPath) {members : List Statement} (h : members ≠ []) :
    Reading.statements.struct outer members = [.ifOneNil outer [.record outer] members] := by
  simp only [Reading.statements, FieldTree.structStatements, List.isEmpty_eq_false_iff.2 h]
  rfl

/-- The lines of a struct with members are those of its members, further in, between others. -/
theorem programLines_struct (outer : FieldPath) : ∃ opening closing : List Line,
    ∀ {members : List Statement}, members ≠ [] →
      programLines 0 (Reading.statements.struct outer members) =
        opening ++ (programLines 0 members).map (Line.raise 1) ++ closing := by
  refine ⟨⟨0, oneNilLine outer⟩ :: ⟨1, recordLine outer⟩ :: [⟨0, presentLine outer⟩],
    [⟨0, closingLine⟩], fun {members} hne => ?_⟩
  have hraised : programLines 1 members = (programLines 0 members).map (Line.raise 1) :=
    programLines_add 1 0 members
  rw [statements_struct outer hne]
  simp only [programLines, Statement.lines, Nat.zero_add, hraised, List.cons_append,
    List.nil_append, List.append_nil]

/-- The second program has the lines of the first and one run of lines more.  Either there are none
and the programs are the same, or the second records the path. -/
def AddsLines (path : FieldPath) (p p' : List Statement) : Prop :=
  ∃ before run after : List Line, programLines 0 p = before ++ after ∧
    programLines 0 p' = before ++ run ++ after ∧
    (run = [] ∧ p' = p ∨ run ≠ [] ∧ path ∈ programRecords p')

namespace AddsLines

variable {path : FieldPath} {p p' : List Statement}

theorem refl (path : FieldPath) (p : List Statement) : AddsLines path p p :=
  ⟨programLines 0 p, [], [], by simp, by simp, .inl ⟨rfl, rfl⟩⟩

theorem of_nil (h : p ≠ [] → path ∈ programRecords p) : AddsLines path [] p := by
  by_cases hp : p = []
  · rw [hp]
    exact refl path []
  · exact ⟨[], programLines 0 p, [], rfl, by simp, .inr ⟨programLines_ne_nil hp, h hp⟩⟩

theorem append (h : AddsLines path p p') (l r : List Statement) :
    AddsLines path (l ++ p ++ r) (l ++ p' ++ r) := by
  obtain ⟨before, run, after, hp, hp', hrun⟩ := h
  refine ⟨programLines 0 l ++ before, run, after ++ programLines 0 r, ?_, ?_, ?_⟩
  · simp only [programLines_append, hp, List.append_assoc]
  · simp only [programLines_append, hp', List.append_assoc]
  · refine hrun.imp (And.imp_right fun heq => by rw [heq]) (And.imp_right fun hmem => ?_)
    rw [programRecords_append, programRecords_append]
    exact List.mem_append_left _ (List.mem_append_right _ hmem)

/-- A struct that was left out comes with its block, another one has the run in its block. -/
theorem struct (h : AddsLines path p p') (outer : FieldPath) :
    AddsLines path (Reading.statements.struct outer p) (Reading.statements.struct outer p') := by
  obtain ⟨before, run, after, hp, hp', ⟨-, rfl⟩ | ⟨hrun, hmem⟩⟩ := h
  · exact refl path _
  have hne' : p' ≠ [] := by
    rintro rfl
    cases hmem
  have hrecords : path ∈ programRecords (Reading.statements.struct outer p') := by
    rw [statements_struct outer hne']
    exact List.mem_append_left _ (List.mem_append_right _ hmem)
  by_cases hne : p = []
  -- nothing of the struct was compared, so its whole block is the run
  · subst hne
    exact of_nil fun _ => hrecords
  · obtain ⟨opening, closing, hlines⟩ := programLines_struct outer
    refine ⟨opening ++ before.map (Line.raise 1), run.map (Line.raise 1),
      after.map (Line.raise 1) ++ closing, ?_, ?_, .inr ⟨?_, hrecords⟩⟩
    · rw [hlines hne, hp]
      simp only [List.map_append, List.append_assoc]
    · rw [hlines hne', hp']
      simp only [List.map_append, List.append_assoc]
    · rwa [Ne, List.map_eq_nil_iff]

end AddsLines

/-! ## One of some parts -/

/-- The second row of parts has one part more, or another one in a place, and the statements in it
are those of the first and one run of lines more. -/
def AddsPart (path : FieldPath) (parts parts' : List (String × List Statement)) : Prop :=
  ∃ (a b : List (String × List Statement)) (name : String) (p p' : List Statement),
    (parts = a ++ b ∧ p = [] ∨ parts = a ++ (name, p) :: b) ∧ parts' = a ++ (name, p') :: b ∧
      AddsLines path p p'

namespace AddsPart

variable {path : FieldPath} {parts parts' : List (String × List Statement)}

theorem cons (h : AddsPart path parts parts') (part : String × List Statement) :
    AddsPart path (part :: parts) (part :: parts') := by
  obtain ⟨a, b, name, p, p', hparts, rfl, hlines⟩ := h
  refine ⟨part :: a, b, name, p, p', ?_, rfl, hlines⟩
  rcases hparts with ⟨rfl, hp⟩ | rfl
  · exact .inl ⟨rfl, hp⟩
  · exact .inr rfl

/-- Joined by name, the parts have one run of lines more. -/
theorem joinByName (h : AddsPart path parts parts') (hnames : (parts'.map Prod.fst).Nodup) :
    AddsLines path (joinByName parts) (joinByName parts') := by
  obtain ⟨a, b, name, p, p', hparts, rfl, hlines⟩ := h
  have hnil : ((a ++ (name, ([] : List Statement)) :: b).map Prod.fst).Nodup := by
    simpa only [List.map_append, List.map_cons] using hnames
  obtain ⟨l, r, hothers, hsplit⟩ := joinByName_split hnil
  have hjoined : ResourceDelta.joinByName parts = l ++ p ++ r := by
    rcases hparts with ⟨rfl, rfl⟩ | rfl
    · rw [hothers, List.append_nil]
    · exact hsplit p
  rw [hjoined, hsplit]
  exact hlines.append l r

end AddsPart

/-! ## Reading outlines -/

theorem mem_records_whole (path : FieldPath) {kind : TypeKind} (h : kind ≠ .nestedStruct) :
    path ∈ programRecords (Reading.statements.whole path kind) := by
  rw [records_whole path h, mem_repeatedPaths]
  exact ⟨kind, List.mem_singleton_self _⟩

/-- Statements that compare a field record it. -/
theorem mem_records_nested (nesting : Nesting) (path : FieldPath) {members : List Statement}
    (h : Reading.statements.nested nesting path members ≠ []) :
    path ∈ programRecords (Reading.statements.nested nesting path members) := by
  cases nesting with
  | struct =>
    have hne : members ≠ [] := by
      rintro rfl
      exact h rfl
    rw [Reading.nested, statements_struct path hne]
    exact List.mem_cons_self
  | list => exact mem_records_whole path (by intro h; cases h)
  | map => exact mem_records_whole path (by intro h; cases h)

namespace Outline

variable {ignored : FieldPath → Bool} {path : FieldPath} {scope : Scope} {os os' : Outline}

/-- Unless a field is left out, what is made of it records it. -/
theorem Item.mem_records_part {a : Item} (h : a.part .statements ignored scope ≠ []) :
    scope.extend a.name ∈ programRecords (a.part .statements ignored scope) := by
  cases a with
  | leaf name type =>
    simp only [Item.part] at h ⊢
    split at h
    · exact absurd rfl h
    · rename_i hi
      rw [if_neg hi]
      exact mem_records_whole _ type.kind_ne
  | nested name nesting members =>
    simp only [Item.part] at h ⊢
    split at h
    · exact absurd rfl h
    · rename_i hi
      rw [if_neg hi]
      exact mem_records_nested nesting _ h

namespace Inserted

/-- One part is new or has more lines: that of the field, or that of the struct that it is in. -/
theorem addsPart (h : Inserted path scope os os') (hp : os'.IsProper) :
    AddsPart path (os.parts .statements ignored scope) (os'.parts .statements ignored scope) := by
  induction h with
  | @here scope a os isPath =>
    rw [parts_before, isPath]
    exact ⟨[], _, _, [], _, .inl ⟨rfl, rfl⟩, rfl, .of_nil Item.mem_records_part⟩
  | @after scope b os os' _ ih =>
    rw [parts_before, parts_before]
    exact (ih (isProper_before_iff.1 hp).2.2).cons _
  | @inside scope name nesting members members' rest _ ih =>
    refine ⟨[], rest.parts .statements ignored scope, name.text, _, _, .inr rfl, rfl, ?_⟩
    split
    · exact .refl path _
    -- members of elements are not read, so only a struct passes the lines on
    · cases nesting with
      | struct => exact ((ih hp.2.2.1).joinByName hp.2.2.1.parts_names_nodup).struct _
      | list => exact .refl path _
      | map => exact .refl path _

/-- **An outline with one field more is read with one run of lines more.** -/
theorem read_addsLines (h : Inserted path scope os os') (hp : os'.IsProper) :
    AddsLines path (os.read .statements ignored scope) (os'.read .statements ignored scope) :=
  (h.addsPart hp).joinByName hp.parts_names_nodup

end Inserted

end Outline

/-! ## What is left out -/

/-- What covers something in the elements of a field, and enters none itself, covers the field. -/
theorem covers_of_elements {path q r : FieldPath} {n : FieldName}
    (hn : ((Scope.elements path).extend n).Covers r) (hq : q.Covers r)
    (hw : q.hasWildcard = false) : q.Covers path := by
  have hmember : (path.extend (.elementMember n)).hasWildcard = true := by
    rw [FieldPath.hasWildcard_extend, Step.entersElements, Bool.or_true]
  rw [← FieldPath.segments_prefix_iff] at hn hq
  rcases List.prefix_or_prefix_of_prefix hn hq with h | h
  · rw [(FieldPath.segments_prefix_iff.1 h).hasWildcard hmember] at hw
    cases hw
  · rcases FieldPath.covers_extend_iff.1 (FieldPath.segments_prefix_iff.1 h) with rfl | h
    · rw [hmember] at hw
      cases hw
    · exact h

/-- If a field that is no struct is not ignored, it or a field above it that is no struct either is
clear, and that one is at or below all that cover the field and enter no elements. -/
theorem Outline.exists_clear_leaf {ignored : FieldPath → Bool}
    {flags : FieldPath → Option FieldFlags} :
    ∀ {scope : Scope} {id : Nat} {os : Outline} {g : Field}, scope.IsClear ignored →
      g ∈ os.fields flags scope id → g.kind ≠ .nestedStruct →
        (∀ q : FieldPath, q.Covers g.path → ignored q = false) →
          ∃ f ∈ os.fields flags scope id, f.kind ≠ .nestedStruct ∧ IsClear ignored f.path ∧
            ∀ q : FieldPath, q.Covers g.path → q.hasWildcard = false → q.Covers f.path
  | scope, id, .leaf name type rest, g, hs, hg, hkind, hopen => by
    rcases List.mem_cons.1 hg with rfl | hg
    · exact ⟨_, List.mem_cons_self, hkind, hs.extend_iff.2 (hopen _ (.refl _)), fun q hq _ => hq⟩
    · obtain ⟨f, hf, hrest⟩ := exists_clear_leaf hs hg hkind hopen
      exact ⟨f, List.mem_cons_of_mem _ hf, hrest⟩
  | scope, id, .nested name nesting members rest, g, hs, hg, hkind, hopen => by
    rcases List.mem_cons.1 hg with rfl | hg
    · rw [Nesting.field_path] at hopen
      refine ⟨_, List.mem_cons_self, hkind, ?_, fun q hq _ => hq⟩
      rw [Nesting.field_path]
      exact hs.extend_iff.2 (hopen _ (.refl _))
    · rcases List.mem_append.1 hg with hg | hg
      · obtain ⟨n, -, hn⟩ := covers_of_mem_fields hg
        have hclear : ResourceDelta.IsClear ignored (scope.extend name) :=
          hs.extend_iff.2 (hopen _ ((nesting.covers_extend _ n).trans hn))
        cases nesting with
        | struct =>
          have hscope : (Scope.struct (scope.extend name)).IsClear ignored := hclear
          obtain ⟨f, hf, hrest⟩ := exists_clear_leaf hscope hg hkind hopen
          exact ⟨f, List.mem_cons_of_mem _ (List.mem_append_left _ hf), hrest⟩
        | list =>
          refine ⟨_, List.mem_cons_self, ?_, hclear, fun q hq hw => covers_of_elements hn hq hw⟩
          intro h
          cases h
        | map =>
          refine ⟨_, List.mem_cons_self, ?_, hclear, fun q hq hw => covers_of_elements hn hq hw⟩
          intro h
          cases h
      · obtain ⟨f, hf, hrest⟩ := exists_clear_leaf hs hg hkind hopen
        exact ⟨f, List.mem_cons_of_mem _ (List.mem_append_right _ hf), hrest⟩

namespace FieldTree

variable {t : FieldTree} {os : Outline} {f : Field}

/-- The field is in elements, or it is ignored at or above its path, or all fields at or below it
that are no structs are. -/
def IsLeftOut (t : FieldTree) (f : Field) : Prop :=
  f.path.hasWildcard = true ∨ t.isIgnored f.path = true ∨
    ∀ g ∈ t.fields, (g = f ∨ g.path.isBelow f.path = true) → g.kind ≠ .nestedStruct →
      t.isIgnored g.path = true

instance (t : FieldTree) : DecidablePred t.IsLeftOut := fun f =>
  decidable_of_iff (f.path.hasWildcard = true ∨ t.isIgnored f.path = true ∨
    ∀ g ∈ t.fields.toList, (g = f ∨ g.path.isBelow f.path = true) → g.kind ≠ .nestedStruct →
      t.isIgnored g.path = true) (by
    simp only [Array.mem_toList_iff]
    rfl)

/-- If a field that is no struct is not ignored, an open one that is none either is at or below a
path that covers the field and enters no elements. -/
theorem Outlines.exists_open_leaf (h : t.Outlines os) {g : Field} {p : FieldPath}
    (hw : p.hasWildcard = false) (hcovers : p.Covers g.path) (hg : g ∈ t.fields)
    (hkind : g.kind ≠ .nestedStruct) (hignored : t.isIgnored g.path = false) :
    ∃ c ∈ t.fields, p.Covers c.path ∧ c.kind ≠ .nestedStruct ∧ t.IsOpen c := by
  have hopen : ∀ q : FieldPath, q.Covers g.path → t.ignores q = false := by
    intro q hq
    by_contra hq'
    rw [Bool.not_eq_false] at hq'
    rw [FieldTree.isIgnored_iff.2 ⟨q, hq, hq'⟩] at hignored
    cases hignored
  have hscope : Scope.top.IsClear t.ignores := trivial
  rw [← Array.mem_toList_iff, h.fields_eq] at hg
  obtain ⟨c, hc, hckind, hclear, hall⟩ := Outline.exists_clear_leaf hscope hg hkind hopen
  rw [← h.fields_eq, Array.mem_toList_iff] at hc
  exact ⟨c, hc, hall p hcovers hw, hckind, isOpen_iff.2 hclear⟩

/-- **What is not compared is left out.** -/
theorem Outlines.isLeftOut_iff (h : t.Outlines os) (hf : f ∈ t.fields) :
    t.IsLeftOut f ↔ ¬ t.IsCompared f := by
  constructor
  · rintro hleft ⟨⟨hw, hi⟩, hkind⟩
    rcases hleft with hleft | hleft | hleft
    · rw [hw] at hleft
      cases hleft
    · rw [hi] at hleft
      cases hleft
    · rcases hkind with hkind | ⟨g, hg, hbelow, hkind, -, hig⟩
      · rw [hleft f hf (.inl rfl) hkind] at hi
        cases hi
      · rw [hleft g hg (.inr hbelow) hkind] at hig
        cases hig
  · intro hnot
    by_contra hleft
    unfold IsLeftOut at hleft
    simp only [not_or, Bool.not_eq_true, not_forall, exists_prop] at hleft
    obtain ⟨hw, hi, g, hg, hbelow, hkind, hig⟩ := hleft
    have hcovers : f.path.Covers g.path := by
      rcases hbelow with rfl | hbelow
      · exact .refl _
      · exact (FieldPath.isBelow_iff.1 hbelow).1
    obtain ⟨c, hc, hcovers, hckind, hopen⟩ := h.exists_open_leaf hw hcovers hg hkind hig
    refine hnot ⟨⟨hw, hi⟩, ?_⟩
    -- the open leaf is the field itself or strictly below it
    by_cases hpath : f.path = c.path
    · rw [h.eq_of_path_eq hf hc hpath]
      exact .inl hckind
    · exact .inr ⟨c, hc, FieldPath.isBelow_iff.2 ⟨hcovers, hpath⟩, hckind, hopen⟩

/-- A program records a field exactly if it is compared. -/
theorem Outlines.path_mem_records_iff (h : t.Outlines os) (hf : f ∈ t.fields) :
    f.path ∈ programRecords (os.read .statements t.ignores .top) ↔ t.IsCompared f := by
  rw [h.mem_records_iff]
  constructor
  · rintro ⟨g, hg, hpath, hcompared⟩
    rwa [h.eq_of_path_eq hg hf hpath] at hcompared
  · exact fun hcompared => ⟨f, hf, rfl, hcompared⟩

end FieldTree

/-! ## The main result -/

/-- The text of a fragment that consists of some lines, further in than they stand. -/
def fragmentText (names : Names) (indent : Nat) (lines : List Line) : String :=
  joinLines ("" :: lines.map fun line => (line.raise indent).text names)

theorem fill_layout_raise (names : Names) (indent : Nat) (program : List Statement) :
    (layout indent program).fill names = fragmentText names indent (programLines 0 program) := by
  have hraised : programLines indent program = (programLines 0 program).map (Line.raise indent) :=
    programLines_add indent 0 program
  rw [fill_layout, hraised, List.map_map]
  rfl

/-- The fragments for the second resource are those for the first with one run of lines more, which
is where and what it is for every flavor, all operands and every indentation. -/
structure AddsRun (r r' : Resource) (before run after : List Line) : Prop where
  /-- Each line holds one piece of code. -/
  code : ∀ line ∈ before ++ run ++ after, IsCode line.code
  /-- Without the run they make the fragments for the first resource. -/
  old : ∀ (target : Flavor) (operands : Operands) (indent : Nat),
    compareResource target r operands indent =
      .ok (fragmentText (operands.names target) indent (before ++ after))
  /-- With it they make those for the second. -/
  new : ∀ (target : Flavor) (operands : Operands) (indent : Nat),
    compareResource target r' operands indent =
      .ok (fragmentText (operands.names target) indent (before ++ run ++ after))

/-- **An inserted field changes a fragment in one place.**  If a definition and the same one with a
field inserted into its Spec both make resources under some overrides, the fragments differ by one
run of lines, and there are no lines in it exactly if the new field is left out. -/
theorem compareResource_inserted {definition : ResourceDefinition} {spec : List FieldDefinition}
    {new : FieldDefinition} {ss : List Segment} (hi : Inserts new ss definition.spec spec)
    {o : Overrides} {flavor flavor' : Flavor} {r r' : Resource}
    (h : Resource.build definition o flavor = .ok r)
    (h' : Resource.build { definition with spec := spec } o flavor' = .ok r') :
    ∃ f ∈ r'.spec.fields, f.path.segments = ss ∧ (∀ g ∈ r.spec.fields, g.path ≠ f.path) ∧
      ∃ before run after : List Line, AddsRun r r' before run after ∧
        (run = [] ↔ r'.spec.IsLeftOut f) := by
  obtain ⟨os, -, ⟨hd, hp⟩, -, -, rfl⟩ := Resource.build_eq_ok_iff.1 h
  obtain ⟨os', -, ⟨hd', hp'⟩, -, -, rfl⟩ := Resource.build_eq_ok_iff.1 h'
  obtain ⟨path, hpath, hos⟩ := Describes.inserted hi hd hd' .top
  have htree : (os.tree o.flagsAt).Outlines os := Outline.tree_outlines hp
  have htree' : (os'.tree o.flagsAt).Outlines os' := Outline.tree_outlines hp'
  have hread : AddsLines path (os.read .statements (os.tree o.flagsAt).ignores .top)
      (os'.read .statements (os'.tree o.flagsAt).ignores .top) := by
    rw [Outline.read_ignores hp, Outline.read_ignores hp']
    exact hos.read_addsLines hp'
  obtain ⟨before, run, after, hold, hnew, hrun⟩ := hread
  obtain ⟨f, hresolve, -⟩ : ∃ f, (os'.tree o.flagsAt).resolve path = some f ∧
      f.flags = o.flagsAt path := Outline.exists_resolve_tree hp' hos.mem_paths
  obtain ⟨hf, rfl⟩ := (Outline.resolve_tree hp').1 hresolve
  have hfresh : ∀ g ∈ (os.tree o.flagsAt).fields, g.path ≠ f.path := by
    refine (Outline.forall_mem_tree_fields (P := fun q => q ≠ f.path)).2 ?_
    rintro q hq rfl
    exact hos.not_mem_paths hp' hq
  refine ⟨f, hf, hpath, hfresh, before, run, after, ⟨?_, ?_, ?_⟩, ?_⟩
  · intro line hline
    rw [← hnew] at hline
    exact isCode_of_mem hline
  · intro target operands indent
    rw [compareResource_eq htree, fill_layout_raise, hold]
  · intro target operands indent
    rw [compareResource_eq htree', fill_layout_raise, hnew]
  -- only the second program can record the new field
  · have hold : f.path ∉ programRecords (os.read .statements (os.tree o.flagsAt).ignores .top) := by
      rw [htree.mem_records_iff]
      rintro ⟨g, hg, hpath, -⟩
      exact hfresh g hg hpath
    rw [htree'.isLeftOut_iff hf, ← htree'.path_mem_records_iff hf]
    rcases hrun with ⟨rfl, hsame⟩ | ⟨hne, hmem⟩
    · rw [hsame]
      exact iff_of_true rfl hold
    · exact iff_of_false hne fun hnot => hnot hmem

/-- Where the limits of the second endpoint have one field more. -/
def storeWithBurst : List FieldDefinition :=
  [.scalar "name" .string,
    .struct "main"
      [.mapOfStrings "labels", .struct "limits" [.scalar "rate" .integer], .bytes "address"],
    .struct "backup"
      [.mapOfStrings "labels",
        .struct "limits" [.scalar "rate" .integer, .scalar "burst" .integer], .bytes "address"],
    .listOfStruct "rules" [.scalar "id" .string]]

theorem storeInPlace_inserts : Inserts (.scalar "burst" .integer)
    [.field "backup", .field "limits", .field "burst"] storeInPlace storeWithBurst :=
  .after (.after (@Inserts.inside _ _ .struct _ _ _ _
    (.after (@Inserts.inside _ _ .struct _ _ _ _ (.after .here)))))

/-- With a new field, the limits of the second endpoint come into the fragment. -/
theorem compareResource_inserted_store : ∃ (r r' : Resource) (before run after : List Line),
    Resource.build (.ofSpec "Store" storeInPlace) storeOverrides .ack = .ok r ∧
    Resource.build (.ofSpec "Store" storeWithBurst) storeOverrides .ack = .ok r' ∧
    AddsRun r r' before run after ∧ run ≠ [] := by
  have hcompared : (Resource.build (.ofSpec "Store" storeInPlace) storeOverrides
      .ack).toOption.any (fun _ =>
        (Resource.build (.ofSpec "Store" storeWithBurst) storeOverrides .ack).toOption.any fun r' =>
          r'.spec.fields.all fun f =>
            f.path.segments != [.field "backup", .field "limits", .field "burst"] ||
              !r'.spec.IsLeftOut f) = true := by cbv
  cases h : Resource.build (.ofSpec "Store" storeInPlace) storeOverrides .ack with
  | error e =>
    rw [h] at hcompared
    cases hcompared
  | ok r =>
    cases h' : Resource.build (.ofSpec "Store" storeWithBurst) storeOverrides .ack with
    | error e =>
      rw [h, h'] at hcompared
      cases hcompared
    | ok r' =>
      obtain ⟨f, hf, hpath, -, before, run, after, hadds, hrun⟩ :=
        compareResource_inserted storeInPlace_inserts h h'
      rw [h, h'] at hcompared
      have hfield := Array.all_eq_true'.1 hcompared f hf
      refine ⟨r, r', before, run, after, rfl, rfl, hadds, fun hnil => ?_⟩
      rw [hrun] at hnil
      simp [hpath, hnil] at hfield

end ResourceDelta
