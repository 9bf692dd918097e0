import ResourceDelta.Proofs.Data.Computation
import ResourceDelta.Proofs.FieldPath.Grammar

/-!
# Reading written paths

Reading a path is the inverse of writing it, and the texts that are read as paths are those that
follow the grammar.

* `readSteps_parts`, `parts_of_readSteps` — steps are read from their own parts and from no others.
* `FieldPath.parse_eq_ok_iff` — a text is read as a path exactly if its parts are those of the path.
* `FieldPath.parse_text`, `FieldPath.text_of_parse` — hence reading and writing are inverse.
* `FieldPath.exists_parse_iff` — a text is read as some path exactly if its parts follow the
  grammar.
-/

set_option autoImplicit false

namespace ResourceDelta

/-! ## Reading -/

theorem FieldName.read_eq_ok_iff {text : String} {index : Nat} {n : FieldName} :
    FieldName.read text index = .ok n ↔ n.text = text := by
  unfold FieldName.read
  split
  · rename_i h
    simp only [Except.ok.injEq]
    constructor
    · rintro rfl
      rfl
    · rintro rfl
      rfl
  · rename_i h
    simp only [reduceCtorEq, false_iff]
    rintro rfl
    exact h n.isName

theorem FieldName.read_eq_error_iff {text : String} {index : Nat} {e : PathError} :
    FieldName.read text index = .error e ↔ ¬ IsIdentifier text ∧ e = .invalidName text index := by
  unfold FieldName.read
  rw [← isFieldName_iff]
  split
  · rename_i h
    simp [h]
  · rename_i h
    simp [h, eq_comm]

theorem FieldName.read_text (n : FieldName) (index : Nat) : FieldName.read n.text index = .ok n :=
  FieldName.read_eq_ok_iff.2 rfl

theorem readSteps_wildcard (index : Nat) (next : String) (rest : List String) :
    readSteps index ("" :: next :: rest) =
      if next = "" then .error .repeatedWildcard
      else do
        let name ← FieldName.read next (index + 1)
        let steps ← readSteps (index + 2) rest
        return .elementMember name :: steps := by
  rw [readSteps.eq_def]
  simp only [if_true]

theorem readSteps_name {part : String} (h : part ≠ "") (index : Nat) (parts : List String) :
    readSteps index (part :: parts) = do
      let name ← FieldName.read part index
      let steps ← readSteps (index + 1) parts
      return .member name :: steps := by
  rw [readSteps.eq_def]
  simp only [if_neg h]

/-- The parts of steps are read as these steps. -/
theorem readSteps_parts : ∀ (steps : List Step) (index : Nat),
    readSteps index ((steps.flatMap Step.segments).map Segment.text) = .ok steps
  | [], _ => rfl
  | .member n :: steps, index => by
    have ih := readSteps_parts steps (index + 1)
    show readSteps index (n.text :: (steps.flatMap Step.segments).map Segment.text) = _
    rw [readSteps_name n.text_ne_empty, n.read_text, ih]
    rfl
  | .elementMember n :: steps, index => by
    have ih := readSteps_parts steps (index + 2)
    show readSteps index ("" :: n.text :: (steps.flatMap Step.segments).map Segment.text) = _
    rw [readSteps_wildcard, if_neg n.text_ne_empty, n.read_text, ih]
    rfl

/-- What is read as steps are the parts of these. -/
theorem parts_of_readSteps {index : Nat} {parts : List String} {steps : List Step}
    (h : readSteps index parts = .ok steps) :
    parts = (steps.flatMap Step.segments).map Segment.text := by
  induction index, parts using readSteps.induct generalizing steps with
  | case1 index =>
    cases h
    rfl
  | case2 index => cases h
  | case3 index rest =>
    rw [readSteps_wildcard, if_pos rfl] at h
    cases h
  | case4 index next rest hnext ih =>
    rw [readSteps_wildcard, if_neg hnext] at h
    obtain ⟨n, hn, h⟩ := bind_eq_ok.1 h
    obtain ⟨steps', hsteps, h⟩ := bind_eq_ok.1 h
    cases h
    rw [ih hsteps, ← FieldName.read_eq_ok_iff.1 hn]
    rfl
  | case5 index part rest hpart ih =>
    rw [readSteps_name hpart] at h
    obtain ⟨n, hn, h⟩ := bind_eq_ok.1 h
    obtain ⟨steps', hsteps, h⟩ := bind_eq_ok.1 h
    cases h
    rw [ih hsteps, ← FieldName.read_eq_ok_iff.1 hn]
    rfl

namespace FieldPath

/-- A text that is not empty is read part by part. -/
theorem parse_parts {s first : String} {rest : List String} (hs : s ≠ "")
    (hparts : dotParts s = first :: rest) :
    FieldPath.parse s =
      if first = "" then .error .leadingWildcard
      else do
        let root ← FieldName.read first 0
        let steps ← readSteps 1 rest
        return ⟨root, steps⟩ := by
  unfold parse
  rw [if_neg hs, pathParts_eq, hparts]

/-- **A text is read as a path exactly if its parts are those of the path.** -/
theorem parse_eq_ok_iff {s : String} {p : FieldPath} :
    FieldPath.parse s = .ok p ↔ dotParts s = p.segments.map Segment.text := by
  obtain ⟨first, rest, hparts⟩ := List.exists_cons_of_ne_nil (dotParts_ne_nil s)
  constructor
  · intro h
    have hs : s ≠ "" := by
      rintro rfl
      cases h
    rw [parse_parts hs hparts] at h
    split at h
    · cases h
    · obtain ⟨root, hroot, h⟩ := bind_eq_ok.1 h
      obtain ⟨steps, hsteps, h⟩ := bind_eq_ok.1 h
      cases h
      rw [hparts, parts_of_readSteps hsteps, ← FieldName.read_eq_ok_iff.1 hroot]
      rfl
  · intro h
    have hs : s ≠ "" := by
      rintro rfl
      exact p.root.text_ne_empty (List.cons.inj h).1.symm
    have hfirst : (Segment.field p.root.text).text = p.root.text := rfl
    rw [parse_parts hs h, hfirst, if_neg p.root.text_ne_empty, p.root.read_text]
    refine bind_eq_ok.2 ⟨p.root, rfl, bind_eq_ok.2 ⟨p.steps, readSteps_parts p.steps 1, rfl⟩⟩

/-- **The written form of a path is read as that path.** -/
theorem parse_text (p : FieldPath) : FieldPath.parse p.text = .ok p :=
  parse_eq_ok_iff.2 (dotParts_text p)

theorem text_of_parse {s : String} {p : FieldPath} (h : FieldPath.parse s = .ok p) :
    p.text = s := by
  rw [text_eq, ← parse_eq_ok_iff.1 h, intercalate_dotParts]

theorem text_injective : Function.Injective text := by
  intro p q h
  have hp := parse_text p
  rw [h, parse_text q] at hp
  exact (Except.ok.inj hp).symm

theorem segments_of_parse {s : String} {p : FieldPath} (h : FieldPath.parse s = .ok p) :
    p.segments = (dotParts s).map Segment.ofPart := by
  rw [parse_eq_ok_iff.1 h, p.segments_canonical.map_ofPart_text]

/-- **A text is read as a path exactly if its parts are those of a written path.** -/
theorem exists_parse_iff {s : String} :
    (∃ p, FieldPath.parse s = .ok p) ↔ IsWrittenPath (dotParts s) := by
  rw [← isCanonical_map_ofPart (dotParts_ne_nil s)]
  constructor
  · rintro ⟨p, h⟩
    rw [← segments_of_parse h]
    exact p.segments_canonical
  · intro h
    obtain ⟨p, hp⟩ := h.exists_path
    refine ⟨p, parse_eq_ok_iff.2 ?_⟩
    rw [hp, Segment.map_text_ofPart]

end FieldPath

end ResourceDelta
