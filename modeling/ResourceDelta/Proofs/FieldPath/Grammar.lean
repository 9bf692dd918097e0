import Mathlib.Data.List.Chain
import ResourceDelta.FieldPath.Reader
import ResourceDelta.Proofs.FieldPath.Covering

/-!
# The grammar of written paths

A path can be seen as a list of segments and as a text.  Which lists and which texts these are is
stated here without reading any.

* `IsCanonical` — a name at both ends, no two wildcards in a row, and valid names.  These are the
  lists of segments of paths: `FieldPath.segments_canonical`, `IsCanonical.exists_path`.
* `dotParts` — the parts of a text between its dots, which determine it: `intercalate_dotParts`,
  `dotParts_intercalate`.
* `IsWrittenPath` — the parts of a written path, an empty part being a wildcard; they are the
  canonical segments: `isCanonical_map_ofPart`.
* `FieldPath.dotParts_text` — the parts of the written form of a path are its segments.
-/

set_option autoImplicit false

namespace ResourceDelta

/-! ## Names -/

/-- An ASCII letter or an underscore, then ASCII letters, digits and underscores. -/
def IsIdentifier (text : String) : Prop :=
  ∃ c cs, text.toList = c :: cs ∧ (c.isAlpha = true ∨ c = '_') ∧
    ∀ x ∈ cs, x.isAlphanum = true ∨ x = '_'

theorem isFieldName_iff {text : String} : isFieldName text = true ↔ IsIdentifier text := by
  unfold isFieldName IsIdentifier
  cases text.toList with
  | nil => simp
  | cons c cs => simp [isNameStart, isNameRest]

theorem FieldName.text_ne_empty (n : FieldName) : n.text ≠ "" := by
  intro h
  have := n.isName
  rw [h] at this
  exact absurd this (by decide)

theorem FieldName.dot_not_mem (n : FieldName) : '.' ∉ n.text.toList := by
  obtain ⟨c, cs, htext, hc, hcs⟩ := isFieldName_iff.1 n.isName
  rw [htext]
  intro hdot
  rcases List.mem_cons.1 hdot with rfl | hdot
  · revert hc
    decide
  · have := hcs '.' hdot
    revert this
    decide

/-! ## Parts of a text -/

/-- The parts of a text between its dots. -/
def dotParts (s : String) : List String :=
  (s.toList.splitOn '.').map String.ofList

theorem splitAtDots_eq_splitOn : ∀ cs : List Char, splitAtDots cs = cs.splitOn '.'
  | [] => by
    rw [List.splitOn_nil]
    rfl
  | c :: cs => by
    rw [List.splitOn_cons_eq_if_modifyHead, splitAtDots, splitAtDots_eq_splitOn cs]
    by_cases h : c = '.'
    · simp [h]
    · obtain ⟨part, parts, hparts⟩ := List.exists_cons_of_ne_nil (List.splitOn_ne_nil '.' cs)
      simp [h, hparts]

theorem pathParts_eq (s : String) : pathParts s = dotParts s := by
  unfold pathParts dotParts
  rw [splitAtDots_eq_splitOn]

theorem dotParts_ne_nil (s : String) : dotParts s ≠ [] := by
  simp [dotParts]

theorem intercalate_dotParts (s : String) : ".".intercalate (dotParts s) = s := by
  apply String.toList_injective
  rw [String.toList_intercalate]
  unfold dotParts
  rw [List.map_map, show (String.toList ∘ String.ofList) = id from
    funext fun cs => String.toList_ofList, List.map_id]
  exact List.intercalate_splitOn '.'

theorem dotParts_intercalate {parts : List String} (hne : parts ≠ [])
    (hdot : ∀ part ∈ parts, '.' ∉ part.toList) : dotParts (".".intercalate parts) = parts := by
  unfold dotParts
  rw [String.toList_intercalate]
  have hparts : List.splitOn '.' (['.'].intercalate (parts.map String.toList)) =
      parts.map String.toList := by
    apply List.splitOn_intercalate
    · intro cs hcs
      obtain ⟨part, hpart, rfl⟩ := List.mem_map.1 hcs
      exact hdot part hpart
    · simpa using hne
  rw [show ".".toList = ['.'] from rfl, hparts, List.map_map,
    show (String.ofList ∘ String.toList) = id from funext fun t => String.ofList_toList,
    List.map_id]

/-- The parts of two texts with a dot between them are those of the one and then the other. -/
theorem dotParts_append (s t : String) : dotParts (s ++ "." ++ t) = dotParts s ++ dotParts t := by
  unfold dotParts
  rw [String.toList_append, String.toList_append, show ".".toList = ['.'] from rfl,
    List.append_assoc, List.singleton_append, List.splitOn_append_cons_self, List.map_append]

theorem dotParts_eq_singleton {s : String} (h : '.' ∉ s.toList) : dotParts s = [s] := by
  unfold dotParts
  rw [List.splitOn_eq_singleton h, List.map_singleton, String.ofList_toList]

/-! ## Canonical segments -/

/-- The segments of a path: a name at both ends, no two wildcards in a row, and valid names. -/
structure IsCanonical (ss : List Segment) : Prop where
  starts : ∃ n, ss.head? = some (.field n)
  ends : ∃ n, ss.getLast? = some (.field n)
  apart : ss.IsChain fun a b => a ≠ .element ∨ b ≠ .element
  named : ∀ n, .field n ∈ ss → IsIdentifier n

namespace FieldPath

theorem segments_extend_canonical {p : FieldPath} (s : Step) (h : IsCanonical p.segments) :
    IsCanonical (p.extend s).segments := by
  obtain ⟨n, hn⟩ := h.starts
  obtain ⟨m, hm⟩ := h.ends
  rw [segments_extend]
  refine ⟨⟨n, ?_⟩, ⟨s.name.text, ?_⟩, ?_, ?_⟩
  · rw [List.head?_append, hn]
    rfl
  · rw [List.getLast?_append]
    cases s <;> rfl
  · rw [List.isChain_append]
    refine ⟨h.apart, ?_, fun a ha b hb => ?_⟩
    · cases s <;> simp [Step.segments]
    · rw [hm] at ha
      cases ha
      simp
  · intro k hk
    rcases List.mem_append.1 hk with hk | hk
    · exact h.named k hk
    · have : k = s.name.text := by
        cases s <;> simpa [Step.segments, Step.name] using hk
      rw [this]
      exact isFieldName_iff.1 s.name.isName

theorem segments_canonical (p : FieldPath) : IsCanonical p.segments := by
  induction p using extend_induction with
  | root n =>
    refine ⟨⟨n.text, rfl⟩, ⟨n.text, rfl⟩, List.isChain_singleton _, fun k hk => ?_⟩
    have : k = n.text := by simpa [segments] using hk
    rw [this]
    exact isFieldName_iff.1 n.isName
  | extend p s ih => exact segments_extend_canonical s ih

end FieldPath

/-- What follows a name among canonical segments is canonical from the next name on. -/
theorem IsCanonical.drop {c ss : List Segment} {n : String}
    (h : IsCanonical (c ++ .field n :: ss)) : IsCanonical (.field n :: ss) := by
  obtain ⟨m, hm⟩ := h.ends
  refine ⟨⟨n, rfl⟩, ⟨m, ?_⟩, (List.isChain_append.1 h.apart).2.1, fun k hk => ?_⟩
  · rw [List.getLast?_append_of_ne_nil _ (List.cons_ne_nil _ _)] at hm
    exact hm
  · exact h.named k (List.mem_append_right _ hk)

/-- After a name, canonical segments are those of steps. -/
theorem IsCanonical.exists_steps : ∀ {n : String} {ss : List Segment},
    IsCanonical (.field n :: ss) → ∃ steps : List Step, steps.flatMap Step.segments = ss
  | _, [], _ => ⟨[], rfl⟩
  | n, .field m :: ss, h => by
    obtain ⟨steps, hsteps⟩ := (h.drop (c := [.field n])).exists_steps
    have hm : isFieldName m = true := isFieldName_iff.2 (h.named m (by simp))
    exact ⟨.member ⟨m, hm⟩ :: steps, by simp [Step.segments, hsteps]⟩
  | n, [.element], h => by
    obtain ⟨m, hm⟩ := h.ends
    cases hm
  | n, .element :: .element :: ss, h => by
    have := h.apart
    simp at this
  | n, .element :: .field m :: ss, h => by
    obtain ⟨steps, hsteps⟩ := (h.drop (c := [.field n, .element])).exists_steps
    have hm : isFieldName m = true := isFieldName_iff.2 (h.named m (by simp))
    exact ⟨.elementMember ⟨m, hm⟩ :: steps, by simp [Step.segments, hsteps]⟩

/-- **Canonical segments are those of a path.** -/
theorem IsCanonical.exists_path {ss : List Segment} (h : IsCanonical ss) :
    ∃ p : FieldPath, p.segments = ss := by
  obtain ⟨n, hn⟩ := h.starts
  cases ss with
  | nil => cases hn
  | cons s ss =>
    cases hn
    obtain ⟨steps, hsteps⟩ := h.exists_steps
    have hname : isFieldName n = true := isFieldName_iff.2 (h.named n List.mem_cons_self)
    exact ⟨⟨⟨n, hname⟩, steps⟩, congrArg _ hsteps⟩

/-! ## Segments as parts -/

/-- The segment that a part stands for: an empty part is a wildcard. -/
def Segment.ofPart (part : String) : Segment :=
  if part = "" then .element else .field part

theorem Segment.ofPart_eq_element {part : String} : Segment.ofPart part = .element ↔ part = "" := by
  unfold ofPart
  split <;> simp_all

theorem Segment.ofPart_eq_field {part n : String} :
    Segment.ofPart part = .field n ↔ part = n ∧ n ≠ "" := by
  unfold ofPart
  split <;> grind

theorem Segment.text_ofPart (part : String) : (Segment.ofPart part).text = part := by
  unfold ofPart
  split
  · rename_i h
    exact h.symm
  · rfl

theorem IsIdentifier.ne_empty {n : String} (h : IsIdentifier n) : n ≠ "" :=
  FieldName.text_ne_empty ⟨n, isFieldName_iff.2 h⟩

theorem Segment.map_text_ofPart (parts : List String) :
    (parts.map Segment.ofPart).map Segment.text = parts := by
  rw [List.map_map]
  exact List.map_id'' Segment.text_ofPart parts

theorem IsCanonical.map_ofPart_text {ss : List Segment} (h : IsCanonical ss) :
    (ss.map Segment.text).map Segment.ofPart = ss := by
  have hid : ∀ s ∈ ss, Segment.ofPart s.text = s := by
    intro s hs
    cases s with
    | element => rfl
    | field n => exact if_neg (h.named n hs).ne_empty
  rw [List.map_map]
  exact (List.map_congr_left hid).trans (List.map_id ss)

/-- The parts of a written path: the first and the last are not empty, no two consecutive ones are,
and every part that is not empty is a field name. -/
structure IsWrittenPath (parts : List String) : Prop where
  first : parts.head? ≠ some ""
  last : parts.getLast? ≠ some ""
  apart : parts.IsChain fun a b => a ≠ "" ∨ b ≠ ""
  named : ∀ part ∈ parts, part ≠ "" → IsIdentifier part

theorem isCanonical_map_ofPart {parts : List String} (hne : parts ≠ []) :
    IsCanonical (parts.map Segment.ofPart) ↔ IsWrittenPath parts := by
  have hends : ∀ {part : Option String}, part.isSome = true →
      ((∃ n, part.map Segment.ofPart = some (.field n)) ↔ part ≠ some "") := by
    intro part hpart
    obtain ⟨part, rfl⟩ := Option.isSome_iff_exists.1 hpart
    simp [Segment.ofPart_eq_field]
  have hapart : ∀ a b : String, (Segment.ofPart a ≠ .element ∨ Segment.ofPart b ≠ .element) ↔
      (a ≠ "" ∨ b ≠ "") := by
    intro a b
    simp [Segment.ofPart_eq_element]
  constructor
  · intro h
    have hstarts := h.starts
    have hend := h.ends
    rw [List.head?_map, hends (by simpa using hne)] at hstarts
    rw [List.getLast?_map, hends (by simpa using hne)] at hend
    refine ⟨hstarts, hend, ?_, fun part hpart hpe => ?_⟩
    · have := h.apart
      rw [List.isChain_map] at this
      simpa only [hapart] using this
    · exact h.named part (List.mem_map.2 ⟨part, hpart, if_neg hpe⟩)
  · intro h
    refine ⟨?_, ?_, ?_, fun n hn => ?_⟩
    · rw [List.head?_map, hends (by simpa using hne)]
      exact h.first
    · rw [List.getLast?_map, hends (by simpa using hne)]
      exact h.last
    · rw [List.isChain_map]
      simpa only [hapart] using h.apart
    · obtain ⟨part, hpart, hofPart⟩ := List.mem_map.1 hn
      obtain ⟨rfl, hpe⟩ := Segment.ofPart_eq_field.1 hofPart
      exact h.named part hpart hpe

/-! ## The written form -/

namespace FieldPath

theorem intercalate_cons_eq_join (sep : String) : ∀ (t : String) (ts : List String),
    sep.intercalate (t :: ts) = t ++ String.join (ts.map (sep ++ ·))
  | t, [] => by simp
  | t, u :: ts => by
    rw [String.intercalate_cons_cons, intercalate_cons_eq_join sep u ts, List.map_cons,
      String.join_cons, String.append_assoc, String.append_assoc]

theorem join_steps : ∀ steps : List Step,
    String.join (steps.map Step.text) =
      String.join (((steps.flatMap Step.segments).map Segment.text).map ("." ++ ·))
  | [] => rfl
  | s :: steps => by
    have hstep : s.text = String.join ((s.segments.map Segment.text).map ("." ++ ·)) := by
      cases s <;> simp [Step.text, Step.segments, Segment.text, ← String.append_assoc]
    rw [List.map_cons, String.join_cons, List.flatMap_cons, List.map_append, List.map_append,
      String.join_append, hstep, join_steps steps]

/-- The written form joins the segments by dots. -/
theorem text_eq (p : FieldPath) : p.text = ".".intercalate (p.segments.map Segment.text) := by
  unfold segments
  rw [List.map_cons, intercalate_cons_eq_join, ← join_steps]
  rfl

theorem dotParts_text (p : FieldPath) : dotParts p.text = p.segments.map Segment.text := by
  rw [text_eq]
  refine dotParts_intercalate (by simp [segments]) fun part hpart => ?_
  obtain ⟨s, hs, rfl⟩ := List.mem_map.1 hpart
  cases s with
  | element => simp [Segment.text]
  | field n =>
    have hn := p.segments_canonical.named n hs
    exact FieldName.dot_not_mem ⟨n, isFieldName_iff.2 hn⟩

end FieldPath

end ResourceDelta
