import Mathlib.Data.List.Induction
import ResourceDelta.FieldPath.Basic

/-!
# Paths at or below a path

`FieldPath.Covers p q` says that `q` leads to the field of `p` or to one below it.  It is the one
relation behind `FieldPath.ancestors` and `FieldPath.isBelow`:

* `FieldPath.mem_ancestors_iff` — the ancestors of a path are the other paths that cover it.
* `FieldPath.isBelow_iff` — a path is below another if that one covers it and is not it.
* `FieldPath.covers_extend_iff` — what covers an extended path is that path or covers the path
  before the last step.
-/

set_option autoImplicit false

namespace ResourceDelta

theorem FieldName.ext_text {a b : FieldName} (h : a.text = b.text) : a = b := by
  cases a
  cases b
  simp only at h
  subst h
  rfl

namespace FieldPath

/-- `q` leads to the field of `p` or to a field below it. -/
def Covers (p q : FieldPath) : Prop :=
  p.root = q.root ∧ p.steps <+: q.steps

theorem Covers.refl (p : FieldPath) : p.Covers p :=
  ⟨rfl, List.prefix_refl _⟩

theorem Covers.trans {p q r : FieldPath} (hpq : p.Covers q) (hqr : q.Covers r) : p.Covers r :=
  ⟨hpq.1.trans hqr.1, hpq.2.trans hqr.2⟩

theorem Covers.antisymm {p q : FieldPath} (hpq : p.Covers q) (hqp : q.Covers p) : p = q := by
  obtain ⟨root, steps⟩ := p
  obtain ⟨root', steps'⟩ := q
  obtain ⟨rfl, hss⟩ := hpq
  have hs : steps = steps' := hss.eq_of_length_le hqp.2.length_le
  rw [hs]

theorem covers_iff_eq_or {p q : FieldPath} : p.Covers q ↔ p = q ∨ p.Covers q ∧ p ≠ q := by
  constructor
  · intro h
    by_cases he : p = q
    · exact .inl he
    · exact .inr ⟨h, he⟩
  · rintro (rfl | h)
    · exact .refl p
    · exact h.1

theorem covers_extend (p : FieldPath) (s : Step) : p.Covers (p.extend s) :=
  ⟨rfl, List.prefix_append _ _⟩

theorem not_extend_covers (p : FieldPath) (s : Step) : ¬ (p.extend s).Covers p := by
  intro h
  have := h.2.length_le
  simp only [extend, List.length_append, List.length_singleton] at this
  omega

theorem covers_extend_iff {p q : FieldPath} {s : Step} :
    p.Covers (q.extend s) ↔ p = q.extend s ∨ p.Covers q := by
  constructor
  · rintro ⟨hroot, hsteps⟩
    rcases List.prefix_concat_iff.1 hsteps with h | h
    · left
      obtain ⟨root, steps⟩ := p
      simp only at hroot h
      rw [hroot, h]
      rfl
    · exact .inr ⟨hroot, h⟩
  · rintro (rfl | h)
    · exact .refl _
    · exact h.trans (covers_extend q s)

theorem covers_root_iff {p : FieldPath} {n : FieldName} : p.Covers ⟨n, []⟩ ↔ p = ⟨n, []⟩ := by
  constructor
  · rintro ⟨hroot, hsteps⟩
    obtain ⟨root, steps⟩ := p
    simp only [List.prefix_nil] at hroot hsteps
    rw [hroot, hsteps]
  · rintro rfl
    exact .refl _

/-! ## Induction along a path -/

/-- Every path is a top-level field's or extends a path by one step. -/
theorem extend_induction {motive : FieldPath → Prop} (root : ∀ n, motive ⟨n, []⟩)
    (extend : ∀ (p : FieldPath) (s : Step), motive p → motive (p.extend s)) (p : FieldPath) :
    motive p := by
  obtain ⟨n, steps⟩ := p
  induction steps using List.reverseRecOn with
  | nil => exact root n
  | append_singleton ss s ih => exact extend ⟨n, ss⟩ s ih

/-! ## Ancestors -/

theorem parent_extend (p : FieldPath) (s : Step) : (p.extend s).parent = some p := by
  obtain ⟨root, steps⟩ := p
  unfold parent extend
  split
  · rename_i h
    simp at h
  · rename_i t ts h
    rw [← h]
    simp

theorem extend_injective {p q : FieldPath} {s s' : Step} (h : p.extend s = q.extend s') :
    p = q ∧ s = s' := by
  have hpq : p = q := by
    have hparent := congrArg parent h
    rw [parent_extend, parent_extend] at hparent
    exact Option.some.inj hparent
  subst hpq
  have hsteps := congrArg steps h
  refine ⟨rfl, ?_⟩
  simpa [extend] using hsteps

theorem extend_ne_root {p : FieldPath} {s : Step} {n : FieldName} : p.extend s ≠ ⟨n, []⟩ := by
  intro h
  have hsteps := congrArg steps h
  simp [extend] at hsteps

theorem ancestors_root (n : FieldName) : (⟨n, []⟩ : FieldPath).ancestors = [] := by
  rw [ancestors]
  simp [parent]

theorem ancestors_extend (p : FieldPath) (s : Step) :
    (p.extend s).ancestors = p :: p.ancestors := by
  rw [ancestors]
  split
  · rename_i h
    rw [parent_extend] at h
    cases h
  · rename_i q h
    rw [parent_extend] at h
    cases h
    rfl

/-- **The ancestors of a path are the other paths that cover it.** -/
theorem mem_ancestors_iff {p q : FieldPath} : q ∈ p.ancestors ↔ q.Covers p ∧ q ≠ p := by
  induction p using extend_induction with
  | root n =>
    rw [ancestors_root, covers_root_iff]
    simp
  | extend p s ih =>
    rw [ancestors_extend, List.mem_cons, ih, covers_extend_iff]
    constructor
    · rintro (rfl | ⟨hq, -⟩)
      · refine ⟨.inr (.refl q), fun h => not_extend_covers q s ?_⟩
        rw [← h]
        exact .refl q
      · refine ⟨.inr hq, fun h => not_extend_covers p s ?_⟩
        rw [← h]
        exact hq
    · rintro ⟨rfl | hq, hne⟩
      · exact absurd rfl hne
      · by_cases h : q = p
        · exact .inl h
        · exact .inr ⟨hq, h⟩

/-- A path and its ancestors are what covers it. -/
theorem mem_self_ancestors_iff {p q : FieldPath} : q ∈ p :: p.ancestors ↔ q.Covers p := by
  rw [List.mem_cons, mem_ancestors_iff, ← covers_iff_eq_or]

/-! ## The flat view -/

/-- Segments can be cut into steps in one way only. -/
theorem steps_prefix_iff : ∀ (ss ts : List Step),
    ss.flatMap Step.segments <+: ts.flatMap Step.segments ↔ ss <+: ts
  | [], ts => by simp
  | s :: ss, [] => by cases s <;> simp [Step.segments]
  | s :: ss, t :: ts => by
    have ih := steps_prefix_iff ss ts
    rw [List.cons_prefix_cons, List.flatMap_cons, List.flatMap_cons, ← ih]
    have hname : ∀ {a b : FieldName}, a.text = b.text ↔ a = b :=
      ⟨FieldName.ext_text, fun h => h ▸ rfl⟩
    cases s <;> cases t <;> simp [Step.segments, List.cons_prefix_cons, hname]

theorem segments_prefix_iff {p q : FieldPath} : p.segments <+: q.segments ↔ p.Covers q := by
  unfold segments Covers
  rw [List.cons_prefix_cons, steps_prefix_iff]
  constructor
  · rintro ⟨hroot, hsteps⟩
    exact ⟨FieldName.ext_text (Segment.field.inj hroot), hsteps⟩
  · rintro ⟨hroot, hsteps⟩
    exact ⟨by rw [hroot], hsteps⟩

theorem segments_injective {p q : FieldPath} (h : p.segments = q.segments) : p = q := by
  have hpq : p.segments <+: q.segments := ⟨[], by rw [List.append_nil, h]⟩
  have hqp : q.segments <+: p.segments := ⟨[], by rw [List.append_nil, h]⟩
  exact (segments_prefix_iff.1 hpq).antisymm (segments_prefix_iff.1 hqp)

theorem segments_extend (p : FieldPath) (s : Step) :
    (p.extend s).segments = p.segments ++ s.segments := by
  simp [segments, extend]

/-- **A path is below another if that one covers it and is not it.** -/
theorem isBelow_iff {p q : FieldPath} : p.isBelow q = true ↔ q.Covers p ∧ q ≠ p := by
  unfold isBelow
  rw [Bool.and_eq_true, decide_eq_true_eq, List.isPrefixOf_iff_prefix, segments_prefix_iff]
  constructor
  · rintro ⟨hlt, hc⟩
    refine ⟨hc, fun h => ?_⟩
    rw [h] at hlt
    omega
  · rintro ⟨hc, hne⟩
    have hp := segments_prefix_iff.2 hc
    refine ⟨?_, hc⟩
    rcases Nat.lt_or_ge q.segments.length p.segments.length with h | h
    · exact h
    · exact absurd (segments_injective (hp.eq_of_length_le h)) hne

theorem not_isBelow_of_not_covers {p q : FieldPath} (h : ¬ p.Covers q) : q.isBelow p = false := by
  rw [← Bool.not_eq_true, FieldPath.isBelow_iff]
  exact fun hb => h hb.1

/-! ## Wildcards -/

theorem hasWildcard_root (n : FieldName) : (⟨n, []⟩ : FieldPath).hasWildcard = false := rfl

theorem hasWildcard_extend (p : FieldPath) (s : Step) :
    (p.extend s).hasWildcard = (p.hasWildcard || s.entersElements) := by
  unfold hasWildcard
  rw [segments_extend, List.any_append]
  cases s <;> rfl

theorem Covers.hasWildcard {p q : FieldPath} (h : p.Covers q) (hp : p.hasWildcard = true) :
    q.hasWildcard = true := by
  obtain ⟨rest, hrest⟩ := segments_prefix_iff.2 h
  unfold FieldPath.hasWildcard at hp ⊢
  rw [← hrest, List.any_append, hp, Bool.true_or]

end FieldPath

end ResourceDelta
