import ResourceDelta.Proofs.Comparison.Reading
import ResourceDelta.Proofs.Resource.Outlined

/-!
# The fields that are compared

A walk over a tree looks at the flags of the field that it stands on, and leaves out a struct when
nothing was made of its members.  What is compared is stated here without a walk: by the flags at
and above a field, and by the fields below it.

* `FieldTree.IsCompared` — the path of a field enters no elements and is not ignored, and the field
  is no struct or has such a field below it that is none.
* `Reading.picks` — the fields that a walk compares, in their order.
* `FieldTree.Outlines.mem_picks_iff` — these are the fields that are compared.
* `FieldTree.Outlines.picks_ascending` — they come in the order of paths.
-/

set_option autoImplicit false

namespace ResourceDelta

/-! ## What is to be compared -/

/-- The path of the field enters no elements, and neither it nor a field above it is ignored. -/
def FieldTree.IsOpen (t : FieldTree) (f : Field) : Prop :=
  f.path.hasWildcard = false ∧ t.isIgnored f.path = false

/-- The field is open, and it is no struct or has an open field below it that is none. -/
def FieldTree.IsCompared (t : FieldTree) (f : Field) : Prop :=
  t.IsOpen f ∧
    (f.kind ≠ .nestedStruct ∨
      ∃ g ∈ t.fields, g.path.isBelow f.path = true ∧ g.kind ≠ .nestedStruct ∧ t.IsOpen g)

instance (t : FieldTree) : DecidablePred t.IsOpen := fun _ =>
  inferInstanceAs (Decidable (_ ∧ _))

instance (t : FieldTree) : DecidablePred t.IsCompared := fun f =>
  decidable_of_iff (t.IsOpen f ∧ (f.kind ≠ .nestedStruct ∨ ∃ g ∈ t.fields.toList,
    g.path.isBelow f.path = true ∧ g.kind ≠ .nestedStruct ∧ t.IsOpen g)) (by
    simp only [Array.mem_toList_iff]
    rfl)

/-- The fields that are compared, each with its kind; structs with nothing below are left out. -/
def Reading.picks : Reading (FieldPath × TypeKind) where
  whole path kind := [(path, kind)]
  struct path members := if members.isEmpty then [] else (path, .nestedStruct) :: members

/-! ## Order -/

namespace Outline

variable {ignored : FieldPath → Bool} {flags : FieldPath → Option FieldFlags} {scope : Scope}
  {id : Nat} {os : Outline}

/-- Every pick is at or below the member of the scope that it comes from. -/
theorem covers_of_mem_parts : ∀ {scope : Scope} {os : Outline}
    {part : String × List (FieldPath × TypeKind)}, part ∈ os.parts .picks ignored scope →
      ∃ n ∈ os.names, part.1 = n.text ∧ ∀ c ∈ part.2, (scope.extend n).Covers c.1
  | scope, .leaf name type rest, part, h => by
    rcases List.mem_cons.1 h with rfl | h
    · refine ⟨name, List.mem_cons_self, rfl, fun c hc => ?_⟩
      split at hc
      · cases hc
      · rw [List.mem_singleton.1 hc]
        exact .refl _
    · obtain ⟨n, hn, htext, hcovers⟩ := covers_of_mem_parts h
      exact ⟨n, List.mem_cons_of_mem _ hn, htext, hcovers⟩
  | scope, .nested name nesting members rest, part, h => by
    rcases List.mem_cons.1 h with rfl | h
    · refine ⟨name, List.mem_cons_self, rfl, fun c hc => ?_⟩
      have hmember : ∀ d ∈ members.read .picks ignored (nesting.scope (scope.extend name)),
          (scope.extend name).Covers d.1 := by
        intro d hd
        obtain ⟨below, hbelow, hd⟩ := mem_joinByName.1 hd
        obtain ⟨n, -, -, hcovers⟩ := covers_of_mem_parts hbelow
        exact (nesting.covers_extend _ n).trans (hcovers d hd)
      split at hc
      · cases hc
      · cases nesting with
        | struct =>
          simp only [Reading.nested, Reading.picks] at hc
          split at hc
          · cases hc
          · rcases List.mem_cons.1 hc with rfl | hc
            · exact .refl _
            · exact hmember c hc
        | list =>
          rw [List.mem_singleton.1 hc]
          exact .refl _
        | map =>
          rw [List.mem_singleton.1 hc]
          exact .refl _
    · obtain ⟨n, hn, htext, hcovers⟩ := covers_of_mem_parts h
      exact ⟨n, List.mem_cons_of_mem _ hn, htext, hcovers⟩

theorem read_picks_of_parts (hp : os.IsProper)
    (h : ∀ part ∈ os.parts .picks ignored scope, part.2.Pairwise fun c d => c.1.Precedes d.1) :
    (os.read .picks ignored scope).Pairwise fun c d => c.1.Precedes d.1 := by
  apply joinByName_pairwise
  · exact hp.parts_names_nodup
  · exact h
  · intro a ha b hb hlt c hc d hd
    obtain ⟨m, -, hm, hmc⟩ := covers_of_mem_parts ha
    obtain ⟨n, -, hn, hnd⟩ := covers_of_mem_parts hb
    rw [hm, hn] at hlt
    exact Scope.precedes_of_name_lt (hmc c hc) (hnd d hd) hlt

theorem parts_picks_ascending : ∀ {scope : Scope} {os : Outline}, os.IsProper →
    ∀ part ∈ os.parts .picks ignored scope, part.2.Pairwise fun c d => c.1.Precedes d.1
  | scope, .leaf name type rest, hp, part, h => by
    rcases List.mem_cons.1 h with rfl | h
    · show List.Pairwise _ (if ignored (scope.extend name) then [] else _)
      split
      · exact .nil
      · exact List.pairwise_singleton _ _
    · exact parts_picks_ascending hp.2 part h
  | scope, .nested name nesting members rest, hp, part, h => by
    rcases List.mem_cons.1 h with rfl | h
    · show List.Pairwise _ (if ignored (scope.extend name) then [] else _)
      split
      · exact .nil
      · cases nesting with
        | struct =>
          simp only [Reading.nested, Reading.picks]
          split
          · exact .nil
          · have ih : (members.read .picks ignored (.struct (scope.extend name))).Pairwise
                fun c d => c.1.Precedes d.1 :=
              read_picks_of_parts hp.2.2.1 (parts_picks_ascending hp.2.2.1)
            refine List.pairwise_cons.2 ⟨fun c hc => ?_, ih⟩
            obtain ⟨below, hbelow, hc⟩ := mem_joinByName.1 hc
            obtain ⟨n, -, -, hcovers⟩ := covers_of_mem_parts hbelow
            apply FieldPath.precedes_of_covers
              ((Nesting.struct.covers_extend _ n).trans (hcovers c hc))
            intro he
            have hn := hcovers c hc
            rw [← he] at hn
            exact Nesting.struct.not_extend_covers _ n hn
        | list => exact List.pairwise_singleton _ _
        | map => exact List.pairwise_singleton _ _
    · exact parts_picks_ascending hp.2.2.2 part h

/-- Picks come in the order of paths: a struct before its members, siblings by name. -/
theorem read_picks_ascending (hp : os.IsProper) :
    (os.read .picks ignored scope).Pairwise fun c d => c.1.Precedes d.1 :=
  read_picks_of_parts hp (parts_picks_ascending hp)

end Outline

/-! ## Membership -/

/-- The path enters no elements, and no path that covers it is ignored. -/
def IsClear (ignored : FieldPath → Bool) (p : FieldPath) : Prop :=
  p.hasWildcard = false ∧ ∀ q : FieldPath, q.Covers p → ignored q = false

/-- `p` is the path of a field of kind `k` that is compared, as seen among the fields `fs`. -/
def IsPick (ignored : FieldPath → Bool) (fs : List Field) (p : FieldPath) (k : TypeKind) : Prop :=
  IsClear ignored p ∧ (∃ f ∈ fs, f.path = p ∧ f.kind = k) ∧
    (k ≠ .nestedStruct ∨
      ∃ g ∈ fs, (p.Covers g.path ∧ p ≠ g.path) ∧ g.kind ≠ .nestedStruct ∧ IsClear ignored g.path)

/-- The members of a scope may be compared one by one. -/
def Scope.IsClear (ignored : FieldPath → Bool) : Scope → Prop
  | .top => True
  | .struct path => ResourceDelta.IsClear ignored path
  | .elements _ => False

section

variable {ignored : FieldPath → Bool} {p q : FieldPath} {k : TypeKind} {fs gs : List Field}

theorem IsClear.of_covers (h : IsClear ignored q) (hpq : p.Covers q) : IsClear ignored p := by
  refine ⟨?_, fun r hr => h.2 r (hr.trans hpq)⟩
  cases hw : p.hasWildcard with
  | false => rfl
  | true =>
    have := hpq.hasWildcard hw
    rw [h.1] at this
    cases this

theorem Scope.IsClear.extend_iff {scope : Scope} {n : FieldName} (h : scope.IsClear ignored) :
    ResourceDelta.IsClear ignored (scope.extend n) ↔ ignored (scope.extend n) = false := by
  constructor
  · intro hc
    exact hc.2 _ (.refl _)
  · intro hi
    cases scope with
    | top =>
      refine ⟨FieldPath.hasWildcard_root n, fun q hq => ?_⟩
      rw [FieldPath.covers_root_iff.1 hq]
      exact hi
    | struct path =>
      refine ⟨?_, fun q hq => ?_⟩
      · show (path.extend (.member n)).hasWildcard = false
        rw [FieldPath.hasWildcard_extend, h.1]
        rfl
      · rcases FieldPath.covers_extend_iff.1 hq with rfl | hq
        · exact hi
        · exact h.2 q hq
    | elements path => exact h.elim

theorem not_isClear_elements {path : FieldPath} {n : FieldName}
    (hc : ((Scope.elements path).extend n).Covers p) : ¬ IsClear ignored p := by
  intro h
  have hw := (h.of_covers hc).1
  rw [show (Scope.elements path).extend n = path.extend (.elementMember n) from rfl,
    FieldPath.hasWildcard_extend, Step.entersElements, Bool.or_true] at hw
  cases hw

/-- Two lists of fields that do not stand above each other contribute their own picks. -/
theorem isPick_append_iff
    (h : ∀ f ∈ fs, ∀ g ∈ gs, ¬ f.path.Covers g.path ∧ ¬ g.path.Covers f.path) :
    IsPick ignored (fs ++ gs) p k ↔ IsPick ignored fs p k ∨ IsPick ignored gs p k := by
  constructor
  · rintro ⟨hclear, ⟨f, hf, rfl, rfl⟩, hbelow⟩
    rcases List.mem_append.1 hf with hf | hf
    · refine .inl ⟨hclear, ⟨f, hf, rfl, rfl⟩, hbelow.imp_right ?_⟩
      rintro ⟨g, hg, hcovers, hkind⟩
      rcases List.mem_append.1 hg with hg | hg
      · exact ⟨g, hg, hcovers, hkind⟩
      · exact absurd hcovers.1 (h f hf g hg).1
    · refine .inr ⟨hclear, ⟨f, hf, rfl, rfl⟩, hbelow.imp_right ?_⟩
      rintro ⟨g, hg, hcovers, hkind⟩
      rcases List.mem_append.1 hg with hg | hg
      · exact absurd hcovers.1 (h g hg f hf).2
      · exact ⟨g, hg, hcovers, hkind⟩
  · rintro (⟨hclear, ⟨f, hf, hpk⟩, hbelow⟩ | ⟨hclear, ⟨f, hf, hpk⟩, hbelow⟩)
    · refine ⟨hclear, ⟨f, List.mem_append_left _ hf, hpk⟩, hbelow.imp_right ?_⟩
      rintro ⟨g, hg, hrest⟩
      exact ⟨g, List.mem_append_left _ hg, hrest⟩
    · refine ⟨hclear, ⟨f, List.mem_append_right _ hf, hpk⟩, hbelow.imp_right ?_⟩
      rintro ⟨g, hg, hrest⟩
      exact ⟨g, List.mem_append_right _ hg, hrest⟩

/-- If nothing else is above a field, its own pick is apart from those of the others. -/
theorem isPick_cons_iff {f : Field} (h : ∀ g ∈ gs, f.path.Covers g.path ∧ f.path ≠ g.path) :
    IsPick ignored (f :: gs) p k ↔
      (f.path = p ∧ f.kind = k ∧ IsClear ignored p ∧
        (k ≠ .nestedStruct ∨ ∃ g ∈ gs, g.kind ≠ .nestedStruct ∧ IsClear ignored g.path)) ∨
      IsPick ignored gs p k := by
  constructor
  · rintro ⟨hclear, ⟨f', hf', rfl, rfl⟩, hbelow⟩
    rcases List.mem_cons.1 hf' with rfl | hf'
    · refine .inl ⟨rfl, rfl, hclear, hbelow.imp_right ?_⟩
      rintro ⟨g, hg, hcovers, hkind⟩
      rcases List.mem_cons.1 hg with rfl | hg
      · exact absurd rfl hcovers.2
      · exact ⟨g, hg, hkind⟩
    · obtain ⟨habove, hne⟩ := h f' hf'
      refine .inr ⟨hclear, ⟨f', hf', rfl, rfl⟩, hbelow.imp_right ?_⟩
      rintro ⟨g, hg, hcovers, hkind⟩
      rcases List.mem_cons.1 hg with rfl | hg
      · exact absurd (habove.antisymm hcovers.1) hne
      · exact ⟨g, hg, hcovers, hkind⟩
  · rintro (⟨rfl, rfl, hclear, hbelow⟩ | ⟨hclear, ⟨f', hf', hpk⟩, hbelow⟩)
    · refine ⟨hclear, ⟨f, List.mem_cons_self, rfl, rfl⟩, hbelow.imp_right ?_⟩
      rintro ⟨g, hg, hkind⟩
      exact ⟨g, List.mem_cons_of_mem _ hg, h g hg, hkind⟩
    · refine ⟨hclear, ⟨f', List.mem_cons_of_mem _ hf', hpk⟩, hbelow.imp_right ?_⟩
      rintro ⟨g, hg, hrest⟩
      exact ⟨g, List.mem_cons_of_mem _ hg, hrest⟩

/-- Something is picked if there is a clear field that is no struct. -/
theorem exists_isPick_iff : (∃ p k, IsPick ignored gs p k) ↔
    ∃ g ∈ gs, g.kind ≠ .nestedStruct ∧ IsClear ignored g.path := by
  constructor
  · rintro ⟨p, k, hclear, ⟨f, hf, rfl, rfl⟩, hkind | ⟨g, hg, -, hrest⟩⟩
    · exact ⟨f, hf, hkind, hclear⟩
    · exact ⟨g, hg, hrest⟩
  · rintro ⟨g, hg, hkind, hclear⟩
    exact ⟨g.path, g.kind, hclear, ⟨g, hg, rfl, rfl⟩, .inl hkind⟩

variable {f : Field}

theorem not_isPick_of_ignored (h : ∀ g ∈ gs, f.path.Covers g.path ∧ f.path ≠ g.path)
    (hignored : ignored f.path = true) : ¬ IsPick ignored (f :: gs) p k := by
  rintro ⟨hclear, ⟨f', hf', rfl, -⟩, -⟩
  have hcovers : f.path.Covers f'.path := by
    rcases List.mem_cons.1 hf' with rfl | hf'
    · exact .refl _
    · exact (h f' hf').1
  rw [hclear.2 f.path hcovers] at hignored
  cases hignored

theorem mem_whole_iff (hf : f.kind ≠ .nestedStruct)
    (hclear : IsClear ignored f.path ↔ ignored f.path = false)
    (hbelow : ∀ g ∈ gs, f.path.Covers g.path ∧ f.path ≠ g.path)
    (hgs : ∀ g ∈ gs, ¬ IsClear ignored g.path) :
    (p, k) ∈ (if ignored f.path then [] else Reading.picks.whole f.path f.kind) ↔
      IsPick ignored (f :: gs) p k := by
  cases hi : ignored f.path with
  | true => simp [not_isPick_of_ignored hbelow hi]
  | false =>
    have hnone : ¬ IsPick ignored gs p k := by
      rintro ⟨hc, ⟨g, hg, rfl, -⟩, -⟩
      exact hgs g hg hc
    rw [isPick_cons_iff hbelow]
    simp only [Bool.false_eq_true, if_false, Reading.picks, List.mem_singleton, Prod.mk.injEq]
    constructor
    · rintro ⟨rfl, rfl⟩
      exact .inl ⟨rfl, rfl, hclear.2 hi, .inl hf⟩
    · rintro (⟨hp, hk, -⟩ | h)
      · exact ⟨hp.symm, hk.symm⟩
      · exact absurd h hnone

theorem mem_struct_iff {below : List (FieldPath × TypeKind)} (hf : f.kind = .nestedStruct)
    (hclear : IsClear ignored f.path ↔ ignored f.path = false)
    (hbelow : ∀ g ∈ gs, f.path.Covers g.path ∧ f.path ≠ g.path)
    (ih : IsClear ignored f.path → ∀ p k, (p, k) ∈ below ↔ IsPick ignored gs p k) :
    (p, k) ∈ (if ignored f.path then [] else Reading.picks.struct f.path below) ↔
      IsPick ignored (f :: gs) p k := by
  cases hi : ignored f.path with
  | true => simp [not_isPick_of_ignored hbelow hi]
  | false =>
    have ih := ih (hclear.2 hi)
    have hsome : below ≠ [] ↔ ∃ g ∈ gs, g.kind ≠ .nestedStruct ∧ IsClear ignored g.path := by
      rw [← exists_isPick_iff]
      constructor
      · intro hne
        obtain ⟨⟨q, j⟩, hc⟩ := List.exists_mem_of_ne_nil below hne
        exact ⟨q, j, (ih q j).1 hc⟩
      · rintro ⟨q, j, hpick⟩ rfl
        exact List.not_mem_nil ((ih q j).2 hpick)
    rw [isPick_cons_iff hbelow, ← ih p k, ← hsome]
    cases below with
    | nil =>
      simp only [Reading.picks, List.not_mem_nil, ne_eq, not_true_eq_false, or_false]
      constructor
      · intro h
        cases h
      · rintro ⟨-, rfl, -, hk⟩
        exact absurd hf hk
    | cons c below =>
      simp only [Bool.false_eq_true, if_false, Reading.picks, List.isEmpty_cons]
      rw [List.mem_cons, Prod.mk.injEq]
      constructor
      · rintro (⟨rfl, rfl⟩ | h)
        · exact .inl ⟨rfl, hf, hclear.2 hi, .inr (List.cons_ne_nil _ _)⟩
        · exact .inr h
      · rintro (⟨rfl, rfl, -⟩ | h)
        · exact .inl ⟨rfl, hf⟩
        · exact .inr h

end

namespace Outline

variable {ignored : FieldPath → Bool} {flags : FieldPath → Option FieldFlags}

/-- The picks of an outline are the fields that are compared, as seen among its own fields. -/
theorem mem_read_picks : ∀ {scope : Scope} {id : Nat} {os : Outline} {p : FieldPath} {k : TypeKind},
    os.IsProper → scope.IsClear ignored →
      ((p, k) ∈ os.read .picks ignored scope ↔ IsPick ignored (os.fields flags scope id) p k)
  | _, _, .done, _, _, _, _ => by
    simp [read, parts, joinByName, fields, IsPick]
  | scope, id, .leaf name type rest, p, k, hp, hs => by
    have hown : ∀ f : Field, f.path = scope.extend name → f.kind = type.kind →
        ((p, k) ∈ (if ignored (scope.extend name) then [] else
          Reading.picks.whole (scope.extend name) type.kind) ↔ IsPick ignored [f] p k) := by
      intro f hpath hkind
      have hclear := hs.extend_iff (n := name)
      rw [← hpath] at hclear
      rw [← hpath, ← hkind]
      refine mem_whole_iff ?_ hclear ?_ ?_
      · rw [hkind]
        exact type.kind_ne
      · intro g hg
        cases hg
      · intro g hg
        cases hg
    have ih : (p, k) ∈ rest.read .picks ignored scope ↔
        IsPick ignored (rest.fields flags scope (id + 1)) p k :=
      mem_read_picks hp.2 hs
    show _ ∈ joinByName (_ :: _) ↔ IsPick ignored ([_] ++ _) p k
    rw [mem_joinByName_cons, isPick_append_iff]
    · exact or_congr (hown _ rfl rfl) ih
    · intro f hf g hg
      rw [List.mem_singleton.1 hf]
      exact apart_of_mem_fields hp.1 (.refl _) hg
  | scope, id, .nested name nesting members rest, p, k, hp, hs => by
    have hbelow : ∀ g ∈ members.fields flags (nesting.scope (scope.extend name)) (id + 1),
        (scope.extend name).Covers g.path ∧ scope.extend name ≠ g.path :=
      fun g hg => below_of_mem_fields hg
    have hown : (p, k) ∈ (if ignored (scope.extend name) then [] else
          Reading.picks.nested nesting (scope.extend name)
            (joinByName (members.parts .picks ignored (nesting.scope (scope.extend name))))) ↔
        IsPick ignored (nesting.field (scope.extend name) (flags (scope.extend name))
          (members.ids (id + 1)) ::
            members.fields flags (nesting.scope (scope.extend name)) (id + 1)) p k := by
      cases nesting with
      | struct =>
        refine mem_struct_iff (f := Nesting.field .struct ..) rfl hs.extend_iff hbelow ?_
        intro hc q j
        exact mem_read_picks hp.2.2.1 hc
      | list =>
        refine mem_whole_iff (f := Nesting.field .list ..) (by intro h; cases h) hs.extend_iff
          hbelow ?_
        intro g hg
        obtain ⟨n, -, hc⟩ := covers_of_mem_fields hg
        exact not_isClear_elements hc
      | map =>
        refine mem_whole_iff (f := Nesting.field .map ..) (by intro h; cases h) hs.extend_iff
          hbelow ?_
        intro g hg
        obtain ⟨n, -, hc⟩ := covers_of_mem_fields hg
        exact not_isClear_elements hc
    have ih : (p, k) ∈ rest.read .picks ignored scope ↔
        IsPick ignored (rest.fields flags scope (id + 1 + members.size)) p k :=
      mem_read_picks hp.2.2.2 hs
    show _ ∈ joinByName (_ :: _) ↔ IsPick ignored ((_ :: _) ++ _) p k
    rw [mem_joinByName_cons, isPick_append_iff]
    · exact or_congr hown ih
    · intro f hf g hg
      refine apart_of_mem_fields hp.1 ?_ hg
      rcases List.mem_cons.1 hf with rfl | hf
      · rw [Nesting.field_path]
        exact .refl _
      · exact (hbelow f hf).1

end Outline

/-! ## The picks of a tree -/

namespace FieldTree

variable {t : FieldTree} {os : Outline}

theorem isClear_ignores_iff {p : FieldPath} :
    IsClear t.ignores p ↔ p.hasWildcard = false ∧ t.isIgnored p = false := by
  unfold IsClear
  rw [← Bool.not_eq_true (t.isIgnored p), isIgnored_iff]
  simp only [not_exists, not_and, Bool.not_eq_true]

theorem isOpen_iff {f : Field} : t.IsOpen f ↔ IsClear t.ignores f.path :=
  isClear_ignores_iff.symm

/-- **The picks of a tree are its fields that are compared.** -/
theorem Outlines.mem_picks_iff (h : t.Outlines os) {p : FieldPath} {k : TypeKind} :
    (p, k) ∈ os.read .picks t.ignores .top ↔
      ∃ f ∈ t.fields, f.path = p ∧ f.kind = k ∧ t.IsCompared f := by
  have hpicks : (p, k) ∈ os.read .picks t.ignores .top ↔
      IsPick t.ignores (os.fields t.flagsAt .top 0) p k :=
    Outline.mem_read_picks h.proper trivial
  rw [hpicks, ← h.fields_eq]
  unfold IsPick IsCompared
  simp only [Array.mem_toList_iff, isOpen_iff, FieldPath.isBelow_iff]
  constructor
  · rintro ⟨hclear, ⟨f, hf, rfl, rfl⟩, hbelow⟩
    exact ⟨f, hf, rfl, rfl, hclear, hbelow⟩
  · rintro ⟨f, hf, rfl, rfl, hclear, hbelow⟩
    exact ⟨hclear, ⟨f, hf, rfl, rfl⟩, hbelow⟩

theorem Outlines.picks_ascending (h : t.Outlines os) :
    ((os.read .picks t.ignores .top).map Prod.fst).Pairwise FieldPath.Precedes := by
  rw [List.pairwise_map]
  exact Outline.read_picks_ascending h.proper

/-- The paths of the picks are those of the fields that are compared, sorted. -/
theorem Outlines.picks_eq_sort (h : t.Outlines os) :
    FieldPath.sort ((t.fields.toList.filter t.IsCompared).map Field.path) =
      (os.read .picks t.ignores .top).map Prod.fst := by
  apply FieldPath.sort_eq_of_ascending h.picks_ascending
  have hpicks : ((os.read .picks t.ignores .top).map Prod.fst).Nodup :=
    h.picks_ascending.imp FieldPath.Precedes.ne
  have hfields : ((t.fields.toList.filter t.IsCompared).map Field.path).Nodup :=
    h.paths_nodup.sublist (List.filter_sublist.map Field.path)
  rw [List.perm_ext_iff_of_nodup hpicks hfields]
  intro p
  simp only [List.mem_map, List.mem_filter, decide_eq_true_eq, Array.mem_toList_iff]
  constructor
  · rintro ⟨⟨q, k⟩, hc, rfl⟩
    obtain ⟨f, hf, hp, -, hcompared⟩ := h.mem_picks_iff.1 hc
    exact ⟨f, ⟨hf, hcompared⟩, hp⟩
  · rintro ⟨f, ⟨hf, hcompared⟩, rfl⟩
    exact ⟨(f.path, f.kind), h.mem_picks_iff.2 ⟨f, hf, rfl, rfl, hcompared⟩, rfl⟩

end FieldTree

end ResourceDelta
