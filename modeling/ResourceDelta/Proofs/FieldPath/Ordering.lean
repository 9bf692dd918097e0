import ResourceDelta.Proofs.FieldPath.Covering

/-!
# The order of paths

`FieldPath.compare` is a total order in which a path comes before the paths below it.

* `FieldPath.Precedes` — the strict order; it is transitive and irreflexive.
* `FieldPath.precedes_of_covers` — a path precedes the others that it covers.
* `FieldPath.precedes_of_segments` — the first segment in which two paths differ decides.
* `FieldPath.sort_eq_of_perm` — sorting gives the one ascending arrangement.
-/

set_option autoImplicit false

namespace ResourceDelta

/-! ## Segments -/

namespace Segment

instance : Std.OrientedCmp Segment.compare where
  eq_swap {a b} := by
    cases a <;> cases b
    · exact Std.OrientedOrd.eq_swap (α := String)
    · rfl
    · rfl
    · rfl

instance : Std.TransCmp Segment.compare where
  isLE_trans {a b c} hab hbc := by
    cases a <;> cases b <;> cases c
    · exact Std.TransOrd.isLE_trans (α := String) hab hbc
    all_goals first | contradiction | rfl

instance : Std.LawfulEqCmp Segment.compare where
  eq_of_compare {a b} h := by
    cases a <;> cases b
    · rw [Std.LawfulEqOrd.eq_of_compare (α := String) h]
    · cases h
    · cases h
    · rfl

theorem compare_field_of_lt {a b : String} (h : a < b) :
    Segment.compare (.field a) (.field b) = .lt :=
  compareOfLessAndEq_eq_lt.2 h

end Segment

namespace FieldPath

/-- Paths are compared as their segments are, segment by segment. -/
theorem compare_eq (p q : FieldPath) :
    FieldPath.compare p q = List.compareLex Segment.compare p.segments q.segments := rfl

instance : Std.TransCmp FieldPath.compare where
  eq_swap {p q} := by
    rw [compare_eq, compare_eq]
    exact Std.OrientedCmp.eq_swap
  isLE_trans {p q r} hpq hqr := by
    rw [compare_eq] at hpq hqr ⊢
    exact Std.TransCmp.isLE_trans hpq hqr

instance : Std.LawfulEqCmp FieldPath.compare where
  eq_of_compare {p q} h := by
    rw [compare_eq] at h
    exact segments_injective (Std.LawfulEqCmp.eq_of_compare h)

theorem compare_refl (p : FieldPath) : FieldPath.compare p p = .eq :=
  Std.ReflCmp.compare_self

/-- `p` comes strictly before `q` in the order of paths. -/
def Precedes (p q : FieldPath) : Prop :=
  FieldPath.compare p q = .lt

theorem Precedes.trans {p q r : FieldPath} (hpq : p.Precedes q) (hqr : q.Precedes r) :
    p.Precedes r :=
  Std.TransCmp.lt_trans hpq hqr

theorem Precedes.ne {p q : FieldPath} (h : p.Precedes q) : p ≠ q := by
  rintro rfl
  unfold Precedes at h
  rw [compare_refl] at h
  cases h

/-! ## What decides -/

theorem compareLex_append (c ss ts : List Segment) :
    List.compareLex Segment.compare (c ++ ss) (c ++ ts) =
      List.compareLex Segment.compare ss ts := by
  induction c with
  | nil => rfl
  | cons a c ih =>
    have ha : Segment.compare a a = .eq := Std.ReflCmp.compare_self
    rw [List.cons_append, List.cons_append, List.compareLex_cons_cons, ha, ih]
    rfl

/-- A path precedes the others that it covers. -/
theorem precedes_of_covers {p q : FieldPath} (h : p.Covers q) (hne : p ≠ q) : p.Precedes q := by
  obtain ⟨rest, hrest⟩ := segments_prefix_iff.2 h
  unfold Precedes
  rw [compare_eq]
  cases rest with
  | nil =>
    rw [List.append_nil] at hrest
    exact absurd (segments_injective hrest) hne
  | cons s rest =>
    have happ := compareLex_append p.segments [] (s :: rest)
    rw [List.append_nil, hrest] at happ
    rw [happ]
    rfl

/-- The first segment in which two paths differ decides their order. -/
theorem precedes_of_segments {p q : FieldPath} {c : List Segment} {a b : String}
    (hp : c ++ [.field a] <+: p.segments) (hq : c ++ [.field b] <+: q.segments) (h : a < b) :
    p.Precedes q := by
  obtain ⟨ss, hs⟩ := hp
  obtain ⟨ts, ht⟩ := hq
  unfold Precedes
  rw [compare_eq, ← hs, ← ht, List.append_assoc, List.append_assoc, compareLex_append,
    List.singleton_append, List.singleton_append, List.compareLex_cons_cons,
    Segment.compare_field_of_lt h]
  rfl

/-! ## Sorting -/

theorem compare_swap (p q : FieldPath) : FieldPath.compare q p = (FieldPath.compare p q).swap :=
  Std.OrientedCmp.eq_swap

theorem isLE_antisymm {p q : FieldPath} (hpq : (FieldPath.compare p q).isLE = true)
    (hqp : (FieldPath.compare q p).isLE = true) : p = q :=
  Std.LawfulEqCmp.eq_of_compare (Std.OrientedCmp.isLE_antisymm hpq hqp)

theorem isLE_total (p q : FieldPath) :
    (FieldPath.compare p q).isLE = true ∨ (FieldPath.compare q p).isLE = true := by
  rw [compare_swap p q]
  cases FieldPath.compare p q <;> simp

/-- Every path of a list is at most the later ones. -/
def Ascending (ps : List FieldPath) : Prop :=
  ps.Pairwise fun p q => (FieldPath.compare p q).isLE = true

theorem sort_perm (ps : List FieldPath) : (FieldPath.sort ps).Perm ps :=
  List.mergeSort_perm ps _

theorem sort_ascending (ps : List FieldPath) : Ascending (FieldPath.sort ps) := by
  apply List.pairwise_mergeSort
  · intro p q r hpq hqr
    exact Std.TransCmp.isLE_trans hpq hqr
  · intro p q
    rw [Bool.or_eq_true]
    exact isLE_total p q

/-- An ascending list is what sorting makes of each of its arrangements. -/
theorem sort_eq_of_perm {ps qs : List FieldPath} (hps : Ascending ps) (h : ps.Perm qs) :
    FieldPath.sort qs = ps :=
  ((sort_perm qs).trans h.symm).eq_of_pairwise (fun _ _ _ _ hpq hqp => isLE_antisymm hpq hqp)
    (sort_ascending qs) hps

/-- So is a strictly ascending list. -/
theorem sort_eq_of_ascending {ps qs : List FieldPath} (hps : ps.Pairwise Precedes)
    (h : ps.Perm qs) : FieldPath.sort qs = ps := by
  refine sort_eq_of_perm (hps.imp fun {p q} hlt => ?_) h
  rw [show FieldPath.compare p q = .lt from hlt]
  rfl

end FieldPath

end ResourceDelta
