import Mathlib.Data.List.Infix
import Mathlib.Data.List.TFAE
import Mathlib.Logic.Function.Iterate
import Mathlib.Tactic.TFAE
import ResourceDelta.Proofs.FieldPath.Segmentwise

/-!
# Ancestors, descendants and written prefixes

One relation between paths has three forms: one path is met on the way up from the other, its
segments are the first of the other's, and its text with a dot is what the other's text starts with.

* `FieldPath.startsWith_text_iff` — the texts tell which path is below which.
* `iterate_rowAbove` — going up from a path visits its ancestors; the induction is on the path.
* `FieldPath.map_segments_ancestors` — the ancestors of a path are the proper prefixes of its
  segments that end in a name.
* `ancestors_are_prefixes` — all of this together.
-/

set_option autoImplicit false

namespace ResourceDelta

/-! ## Prefixes of texts -/

namespace FieldPath

variable {p q : FieldPath}

/-- **A path is below another if its text starts with the other's text and a dot.** -/
theorem startsWith_text_iff : p.text.startsWith (q.text ++ ".") = true ↔ p.isBelow q = true := by
  rw [String.startsWith_string_iff, isBelow_iff]
  constructor
  · rintro ⟨cs, hcs⟩
    have htext : p.text = q.text ++ "." ++ String.ofList cs := by
      apply String.toList_injective
      rw [String.toList_append, String.toList_ofList, hcs]
    have hparts := p.dotParts_text
    rw [htext, dotParts_append, dotParts_text] at hparts
    have hsegments := congrArg (List.map Segment.ofPart) hparts
    rw [List.map_append, q.segments_canonical.map_ofPart_text,
      p.segments_canonical.map_ofPart_text] at hsegments
    refine ⟨segments_prefix_iff.1 ⟨_, hsegments⟩, ?_⟩
    rintro rfl
    have hnil := List.append_right_eq_self.1 hsegments
    exact dotParts_ne_nil _ (List.map_eq_nil_iff.1 hnil)
  · rintro ⟨hc, hne⟩
    obtain ⟨rest, hrest⟩ := segments_prefix_iff.2 hc
    have hnil : rest ≠ [] := by
      rintro rfl
      rw [List.append_nil] at hrest
      exact hne (segments_injective hrest)
    have hq : q.segments ≠ [] := List.cons_ne_nil _ _
    rw [p.text_eq, ← hrest, List.map_append, String.intercalate_append_of_ne_nil
      (by simpa using hq) (by simpa using hnil), ← q.text_eq, String.toList_append (s := _ ++ _)]
    exact List.prefix_append _ _

/-! ## Going up -/

theorem depth_root (n : FieldName) : (⟨n, []⟩ : FieldPath).depth = 1 := rfl

theorem depth_extend (p : FieldPath) (s : Step) : (p.extend s).depth = p.depth + 1 := by
  unfold depth
  rw [segments_extend, List.filter_append, List.length_append]
  cases s <;> rfl

theorem length_ancestors (p : FieldPath) : p.ancestors.length + 1 = p.depth := by
  induction p using extend_induction with
  | root n => rw [ancestors_root, depth_root, List.length_nil]
  | extend p s ih => rw [ancestors_extend, depth_extend, List.length_cons, ih]

end FieldPath

/-- The row above a row, if there are both. -/
def rowAbove (row : Option (List Segment)) : Option (List Segment) :=
  row.bind shortenRow

theorem rowAbove_segments (p : FieldPath) :
    rowAbove (some p.segments) = p.parent.map FieldPath.segments :=
  p.shortenRow_segments

/-- Going up from a path visits its ancestors, and then nothing. -/
theorem iterate_rowAbove (p : FieldPath) (i : Nat) :
    rowAbove^[i + 1] (some p.segments) = p.ancestors[i]?.map FieldPath.segments := by
  induction p using FieldPath.extend_induction generalizing i with
  | root n =>
    have hnone : rowAbove^[i] none = none := Function.iterate_fixed rfl i
    rw [Function.iterate_succ_apply, rowAbove_segments, FieldPath.ancestors_root]
    exact hnone
  | extend p s ih =>
    rw [Function.iterate_succ_apply, rowAbove_segments, FieldPath.parent_extend,
      FieldPath.ancestors_extend]
    cases i with
    | zero => rfl
    | succ i => exact ih i

/-! ## Prefixes of segments -/

/-- Whether the last segment is a name. -/
def endsInName (ss : List Segment) : Bool :=
  ss.getLast?.any fun s => !s.isElement

/-- The proper prefixes of a row that end in a name, longest first. -/
def namedPrefixes (ss : List Segment) : List (List Segment) :=
  (ss.inits.dropLast.filter endsInName).reverse

theorem endsInName_concat (ss : List Segment) (s : Segment) :
    endsInName (ss ++ [s]) = !s.isElement := by
  simp [endsInName]

theorem endsInName_segments (p : FieldPath) : endsInName p.segments = true := by
  obtain ⟨n, hn⟩ := p.segments_canonical.ends
  simp [endsInName, hn, Segment.isElement]

theorem inits_concat (ss : List Segment) (s : Segment) :
    (ss ++ [s]).inits = ss.inits ++ [ss ++ [s]] := by
  rw [List.inits_append]
  rfl

theorem inits_eq_concat (ss : List Segment) : ss.inits = ss.inits.dropLast ++ [ss] := by
  rcases List.eq_nil_or_concat' ss with rfl | ⟨ss, s, rfl⟩
  · rfl
  · rw [inits_concat, List.dropLast_concat]

/-- One more segment lets the row itself become a proper prefix. -/
theorem namedPrefixes_concat (ss : List Segment) (s : Segment) :
    namedPrefixes (ss ++ [s]) =
      if endsInName ss then ss :: namedPrefixes ss else namedPrefixes ss := by
  unfold namedPrefixes
  rw [inits_concat, List.dropLast_concat]
  conv_lhs => rw [inits_eq_concat, List.filter_append, List.reverse_append]
  cases h : endsInName ss <;> simp [h]

/-- **The ancestors of a path are the proper prefixes of its segments that end in a name**, longest
first. -/
theorem FieldPath.map_segments_ancestors (p : FieldPath) :
    p.ancestors.map FieldPath.segments = namedPrefixes p.segments := by
  induction p using FieldPath.extend_induction with
  | root n =>
    rw [ancestors_root]
    rfl
  | extend p s ih =>
    rw [ancestors_extend, List.map_cons, ih, segments_extend]
    cases s with
    | member n => rw [Step.segments, namedPrefixes_concat, endsInName_segments, if_pos rfl]
    | elementMember n =>
      -- the prefix with the wildcard is no path
      have hsplit : p.segments ++ (Step.elementMember n).segments =
          (p.segments ++ [.element]) ++ [.field n.text] := by simp [Step.segments]
      have helement : ¬ endsInName (p.segments ++ [.element]) = true := by
        simp [endsInName_concat, Segment.isElement]
      rw [hsplit, namedPrefixes_concat, if_neg helement, namedPrefixes_concat,
        endsInName_segments, if_pos rfl]

theorem FieldPath.ancestors_descending (p : FieldPath) :
    p.ancestors.Pairwise fun a b => b.segments.length < a.segments.length := by
  induction p using FieldPath.extend_induction with
  | root n =>
    rw [ancestors_root]
    exact .nil
  | extend p s ih =>
    rw [ancestors_extend]
    refine List.pairwise_cons.2 ⟨fun q hq => ?_, ih⟩
    have hbelow := isBelow_iff.2 (mem_ancestors_iff.1 hq)
    unfold isBelow at hbelow
    simpa using (Bool.and_eq_true_iff.1 hbelow).1

/-! ## The main result -/

/-- What is known of the ancestors of a path. -/
structure HasAncestors (p : FieldPath) : Prop where
  /-- They are what is visited one after the other, going up from the path segment by segment. -/
  visited : ∀ i, rowAbove^[i + 1] (some p.segments) = p.ancestors[i]?.map FieldPath.segments
  /-- Going up ends, after as many steps as the path has names. -/
  ends : rowAbove^[p.depth] (some p.segments) = none
  canonical : ∀ q ∈ p.ancestors, IsCanonical q.segments
  /-- They are the proper prefixes of the segments that end in a name, longest first. -/
  prefixes : p.ancestors.map FieldPath.segments = namedPrefixes p.segments
  descending : p.ancestors.Pairwise fun a b => b.segments.length < a.segments.length
  nodup : p.ancestors.Nodup
  length_eq : p.ancestors.length = p.depth - 1

theorem hasAncestors (p : FieldPath) : HasAncestors p where
  visited := iterate_rowAbove p
  ends := by
    rw [← p.length_ancestors, iterate_rowAbove, List.getElem?_eq_none (Nat.le_refl _)]
    rfl
  canonical q _ := q.segments_canonical
  prefixes := p.map_segments_ancestors
  descending := p.ancestors_descending
  nodup := p.ancestors_descending.imp fun {a b} h he => by
    rw [he] at h
    exact Nat.lt_irrefl _ h
  length_eq := by
    rw [← p.length_ancestors, Nat.add_sub_cancel]

/-- **Ancestors, descendants and written prefixes are one relation**, and the ancestors of a path
are the proper prefixes of its segments that end in a name. -/
theorem ancestors_are_prefixes (p : FieldPath) :
    (∀ q : FieldPath, List.TFAE
      [q ∈ p.ancestors, p.isBelow q = true, p.text.startsWith (q.text ++ ".") = true]) ∧
    HasAncestors p := by
  refine ⟨fun q => ?_, hasAncestors p⟩
  tfae_have 1 ↔ 2 := FieldPath.mem_ancestors_iff.trans FieldPath.isBelow_iff.symm
  tfae_have 3 ↔ 2 := FieldPath.startsWith_text_iff
  tfae_finish

/-- A member of elements, and a member of that. -/
def rulesFilter : FieldPath :=
  ⟨⟨"Rules", by decide⟩, [.elementMember ⟨"Filter", by decide⟩]⟩

def rulesFilterPrefix : FieldPath :=
  rulesFilter.extend (.member ⟨"Prefix", by decide⟩)

theorem ancestors_are_prefixes_rules :
    (rulesFilterPrefix.isBelow rulesFilter = true ∧ rulesFilter ∈ rulesFilterPrefix.ancestors ∧
      rulesFilterPrefix.text.startsWith (rulesFilter.text ++ ".") = true) ∧
    rulesFilterPrefix.ancestors.map FieldPath.segments =
      [[.field "Rules", .element, .field "Filter"], [.field "Rules"]] := by
  obtain ⟨hsame, hancestors⟩ := ancestors_are_prefixes rulesFilterPrefix
  have hbelow : rulesFilterPrefix.isBelow rulesFilter = true := by decide
  have hmem := ((hsame rulesFilter).out 1 0).1 hbelow
  exact ⟨⟨hbelow, hmem, ((hsame rulesFilter).out 1 2).1 hbelow⟩, hancestors.prefixes⟩

end ResourceDelta
