import ResourceDelta.Proofs.Config.Encoding
import ResourceDelta.Proofs.FieldPath.Parsing

/-!
# What a text that is no path is rejected for

A text is rejected for its first defect: for the first of its parts that is a wildcard where none
can stand or is no field name, and otherwise for a wildcard at the end.

* `Spoils` — a part that keeps a text from being a path, said without reading it.
* `IsBlamed` — the first such part, or a wildcard at the end if there is none.
* `isBlamed_of_readSteps` — what the reading of steps blames; the induction carries that no part
  before has a defect and that the last of them is a name.
* `FieldPath.parse_eq_error_iff` — what reading a text blames.
* `parse_inverts_text` — all that decides how a text is read, and that paths are read back.
-/

set_option autoImplicit false

namespace ResourceDelta

/-! ## The first defect -/

/-- The part at a place keeps the parts from being those of a path, for the given cause. -/
inductive Spoils (parts : List String) : Nat → PathError → Prop
  | leading (empty : parts[0]? = some "") : Spoils parts 0 .leadingWildcard
  | repeated {i : Nat} (before : parts[i]? = some "") (empty : parts[i + 1]? = some "") :
      Spoils parts (i + 1) .repeatedWildcard
  | invalid {i : Nat} {part : String} (found : parts[i]? = some part) (nonempty : part ≠ "")
      (noName : ¬ IsIdentifier part) : Spoils parts i (.invalidName part i)

/-- What is blamed for parts that are not those of a path: the first part that spoils them, or, if
there is none, a wildcard at the end. -/
inductive IsBlamed (parts : List String) : PathError → Prop
  | spoiled {i : Nat} {e : PathError} (spoils : Spoils parts i e)
      (first : ∀ j < i, ∀ e', ¬ Spoils parts j e') : IsBlamed parts e
  | unfinished (sound : ∀ j e', ¬ Spoils parts j e') (last : parts.getLast? = some "") :
      IsBlamed parts .trailingWildcard

section

variable {parts : List String} {i : Nat} {e e' : PathError}

theorem Spoils.unique (h : Spoils parts i e) (h' : Spoils parts i e') : e = e' := by
  cases h <;> cases h' <;> simp_all

theorem Spoils.lt_length (h : Spoils parts i e) : i < parts.length := by
  cases h with
  | leading empty => exact (List.getElem?_eq_some_iff.1 empty).1
  | repeated _ empty => exact (List.getElem?_eq_some_iff.1 empty).1
  | invalid found => exact (List.getElem?_eq_some_iff.1 found).1

theorem IsBlamed.unique (h : IsBlamed parts e) (h' : IsBlamed parts e') : e = e' := by
  cases h with
  | @spoiled i _ spoils first =>
    cases h' with
    | @spoiled j _ spoils' first' =>
      rcases Nat.lt_trichotomy i j with hlt | rfl | hlt
      · exact absurd spoils (first' i hlt e)
      · exact spoils.unique spoils'
      · exact absurd spoils' (first j hlt e')
    | unfinished sound => exact absurd spoils (sound i e)
  | unfinished sound =>
    cases h' with
    | @spoiled j _ spoils' => exact absurd spoils' (sound j e')
    | unfinished => rfl

theorem IsWrittenPath.not_spoils (h : IsWrittenPath parts) : ¬ Spoils parts i e := by
  intro hs
  cases hs with
  | leading empty =>
    rw [← List.head?_eq_getElem?] at empty
    exact h.first empty
  | @repeated i before empty =>
    obtain ⟨hi, hempty⟩ := List.getElem?_eq_some_iff.1 empty
    obtain ⟨hi', hbefore⟩ := List.getElem?_eq_some_iff.1 before
    rcases h.apart.getElem i hi with hne | hne
    · exact hne hbefore
    · exact hne hempty
  | invalid found nonempty noName => exact noName (h.named _ (List.mem_of_getElem? found) nonempty)

theorem IsWrittenPath.not_isBlamed (h : IsWrittenPath parts) : ¬ IsBlamed parts e := by
  intro hb
  cases hb with
  | spoiled spoils => exact h.not_spoils spoils
  | unfinished _ last => exact h.last last

/-- No part before a place spoils the parts, and the one just before it is no wildcard. -/
structure ReadUpTo (parts : List String) (index : Nat) : Prop where
  sound : ∀ j < index, ∀ e, ¬ Spoils parts j e
  started : index ≠ 0
  afterName : ∀ j, index = j + 1 → parts[j]? ≠ some ""

theorem ReadUpTo.wildcard {index : Nat} (h : ReadUpTo parts index)
    (empty : parts[index]? = some "") : ∀ j < index + 1, ∀ e, ¬ Spoils parts j e := by
  intro j hj e hs
  rcases Nat.lt_succ_iff_lt_or_eq.1 hj with hj | rfl
  · exact h.sound j hj e hs
  · cases hs with
    | leading => exact h.started rfl
    | repeated before => exact h.afterName _ rfl before
    | invalid found nonempty =>
      rw [empty] at found
      cases found
      exact nonempty rfl

theorem readUpTo_name {index : Nat} {name : FieldName}
    (sound : ∀ j < index, ∀ e, ¬ Spoils parts j e)
    (found : parts[index]? = some name.text) : ReadUpTo parts (index + 1) := by
  refine ⟨fun j hj e hs => ?_, Nat.succ_ne_zero _, fun j hj => ?_⟩
  · rcases Nat.lt_succ_iff_lt_or_eq.1 hj with hj | rfl
    · exact sound j hj e hs
    · cases hs with
      | leading empty =>
        rw [found] at empty
        exact name.text_ne_empty (Option.some.inj empty)
      | repeated _ empty =>
        rw [found] at empty
        exact name.text_ne_empty (Option.some.inj empty)
      | invalid found' _ noName =>
        rw [found] at found'
        cases found'
        exact noName (isFieldName_iff.1 name.isName)
  · cases hj
    rw [found]
    intro h
    exact name.text_ne_empty (Option.some.inj h)

/-- The first of the parts from a place on stands at that place. -/
theorem cons_drop {whole rest : List String} {part : String} {index : Nat}
    (h : whole.drop index = part :: rest) :
    whole[index]? = some part ∧ whole.drop (index + 1) = rest := by
  constructor
  · rw [← List.head?_drop, h]
    rfl
  · rw [← List.tail_drop, h]
    rfl

/-- **What the reading of steps blames is the first defect of all parts**, if the parts before have
none. -/
theorem isBlamed_of_readSteps {whole : List String} {index : Nat} {rest : List String}
    (hrest : whole.drop index = rest) (hread : ReadUpTo whole index)
    (h : readSteps index rest = .error e) : IsBlamed whole e := by
  induction index, rest using readSteps.induct with
  | case1 index => cases h
  | case2 index =>
    cases h
    obtain ⟨hpart, hend⟩ := cons_drop hrest
    have hlength : whole.length = index + 1 := by
      have hle : whole.length ≤ index + 1 := List.drop_eq_nil_iff.1 hend
      have hlt := (List.getElem?_eq_some_iff.1 hpart).1
      omega
    refine .unfinished (fun j e' hs => hread.wildcard hpart j ?_ e' hs) ?_
    · rw [← hlength]
      exact hs.lt_length
    · rw [List.getLast?_eq_getElem?, hlength]
      exact hpart
  | case3 index rest =>
    rw [readSteps_wildcard, if_pos rfl] at h
    cases h
    obtain ⟨hpart, hrest⟩ := cons_drop hrest
    obtain ⟨hnext, -⟩ := cons_drop hrest
    exact .spoiled (.repeated hpart hnext) (hread.wildcard hpart)
  | case4 index next rest hnext ih =>
    rw [readSteps_wildcard, if_neg hnext] at h
    obtain ⟨hpart, hrest⟩ := cons_drop hrest
    obtain ⟨hfound, hrest⟩ := cons_drop hrest
    rcases bind_eq_error.1 h with h | ⟨n, hn, h⟩
    · obtain ⟨noName, rfl⟩ := FieldName.read_eq_error_iff.1 h
      exact .spoiled (.invalid hfound hnext noName) (hread.wildcard hpart)
    · rw [← FieldName.read_eq_ok_iff.1 hn] at hfound
      rcases bind_eq_error.1 h with h | ⟨steps, -, h⟩
      · exact ih hrest (readUpTo_name (hread.wildcard hpart) hfound) h
      · cases h
  | case5 index part rest hpart ih =>
    rw [readSteps_name hpart] at h
    obtain ⟨hfound, hrest⟩ := cons_drop hrest
    rcases bind_eq_error.1 h with h | ⟨n, hn, h⟩
    · obtain ⟨noName, rfl⟩ := FieldName.read_eq_error_iff.1 h
      exact .spoiled (.invalid hfound hpart noName) hread.sound
    · rw [← FieldName.read_eq_ok_iff.1 hn] at hfound
      rcases bind_eq_error.1 h with h | ⟨steps, -, h⟩
      · exact ih hrest (readUpTo_name hread.sound hfound) h
      · cases h

end

namespace FieldPath

theorem isBlamed_of_parse {s : String} {e : PathError} (hs : s ≠ "")
    (h : FieldPath.parse s = .error e) : IsBlamed (dotParts s) e := by
  obtain ⟨first, rest, hparts⟩ := List.exists_cons_of_ne_nil (dotParts_ne_nil s)
  have hstart : ∀ j < 0, ∀ e', ¬ Spoils (dotParts s) j e' :=
    fun j hj => absurd hj (Nat.not_lt_zero j)
  have hfound : (dotParts s)[0]? = some first := by
    rw [hparts]
    rfl
  rw [parse_parts hs hparts] at h
  split at h
  · rename_i hfirst
    cases h
    rw [hfirst] at hfound
    exact .spoiled (.leading hfound) hstart
  · rename_i hfirst
    rcases bind_eq_error.1 h with h | ⟨root, hroot, h⟩
    · obtain ⟨noName, rfl⟩ := FieldName.read_eq_error_iff.1 h
      exact .spoiled (.invalid hfound hfirst noName) hstart
    · rw [← FieldName.read_eq_ok_iff.1 hroot] at hfound
      rcases bind_eq_error.1 h with h | ⟨steps, -, h⟩
      · refine isBlamed_of_readSteps ?_ (readUpTo_name hstart hfound) h
        rw [hparts]
        rfl
      · cases h

/-- **What a text that is no path is rejected for**: it is empty, or its parts have a first
defect. -/
theorem parse_eq_error_iff {s : String} {e : PathError} :
    FieldPath.parse s = .error e ↔
      (s = "" ∧ e = .empty) ∨ (s ≠ "" ∧ IsBlamed (dotParts s) e) := by
  by_cases hs : s = ""
  · subst hs
    simp [parse, eq_comm]
  constructor
  · intro h
    exact .inr ⟨hs, isBlamed_of_parse hs h⟩
  · rintro (⟨h, -⟩ | ⟨-, hb⟩)
    · exact absurd h hs
    · cases hparse : FieldPath.parse s with
      | ok p => exact absurd hb (exists_parse_iff.1 ⟨p, hparse⟩).not_isBlamed
      | error e' => rw [hb.unique (isBlamed_of_parse hs hparse)]

theorem parse_eq_empty_iff {s : String} : FieldPath.parse s = .error .empty ↔ s = "" := by
  rw [parse_eq_error_iff]
  constructor
  · rintro (⟨hs, -⟩ | ⟨-, hb⟩)
    · exact hs
    · cases hb with
      | spoiled spoils => cases spoils
  · intro hs
    exact .inl ⟨hs, rfl⟩

theorem parse_eq_trailingWildcard_iff {s : String} :
    FieldPath.parse s = .error .trailingWildcard ↔
      (∀ i e, ¬ Spoils (dotParts s) i e) ∧ (dotParts s).getLast? = some "" := by
  rw [parse_eq_error_iff]
  constructor
  · rintro (⟨-, he⟩ | ⟨-, hb⟩)
    · cases he
    · cases hb with
      | spoiled spoils => cases spoils
      | unfinished sound last => exact ⟨sound, last⟩
  · rintro ⟨sound, last⟩
    refine .inr ⟨?_, .unfinished sound last⟩
    -- the one part of the empty text is a wildcard at the start
    rintro rfl
    exact sound 0 _ (.leading rfl)

/-- Written paths are read back one by one. -/
theorem mapM_parse_text : ∀ ps : List FieldPath,
    (ps.map text).mapM FieldPath.parse = .ok ps
  | [] => rfl
  | p :: ps => by
    rw [List.map_cons, List.mapM_cons, parse_text, mapM_parse_text ps]
    rfl

end FieldPath

/-- The overrides of a resource are read back from what is written of them. -/
theorem WrittenOverrides.parse_text (o : Overrides) :
    WrittenOverrides.parse ⟨o.ignore.map FieldPath.text, o.secret.map FieldPath.text⟩ = .ok o := by
  unfold WrittenOverrides.parse
  rw [FieldPath.mapM_parse_text, FieldPath.mapM_parse_text]
  rfl

/-! ## The main result -/

/-- What comes of reading a text as a path is decided by its parts. -/
structure ReadByGrammar (s : String) : Prop where
  /-- Exactly the parts that follow the grammar are accepted. -/
  accepted : (∃ p, FieldPath.parse s = .ok p) ↔ IsWrittenPath (dotParts s)
  /-- The segments are the parts in order, and the path is written as the text that was read. -/
  faithful : ∀ p, FieldPath.parse s = .ok p →
    p.segments = (dotParts s).map Segment.ofPart ∧ p.text = s
  /-- Only the empty text is rejected for being empty. -/
  empty : FieldPath.parse s = .error .empty ↔ s = ""
  /-- Every other text is rejected for the first part that spoils it. -/
  spoiled : s ≠ "" → ∀ i e, Spoils (dotParts s) i e → (∀ j < i, ∀ e', ¬ Spoils (dotParts s) j e') →
    FieldPath.parse s = .error e
  /-- It is rejected for a wildcard at the end if there is one and no part spoils it. -/
  unfinished : FieldPath.parse s = .error .trailingWildcard ↔
    (∀ i e, ¬ Spoils (dotParts s) i e) ∧ (dotParts s).getLast? = some ""
  /-- There is no other reason. -/
  blamed : ∀ e, FieldPath.parse s = .error e →
    s = "" ∧ e = .empty ∨ s ≠ "" ∧ IsBlamed (dotParts s) e

theorem readByGrammar (s : String) : ReadByGrammar s where
  accepted := FieldPath.exists_parse_iff
  faithful _ h := ⟨FieldPath.segments_of_parse h, FieldPath.text_of_parse h⟩
  empty := FieldPath.parse_eq_empty_iff
  spoiled hs _ _ spoils first := FieldPath.parse_eq_error_iff.2 (.inr ⟨hs, .spoiled spoils first⟩)
  unfinished := FieldPath.parse_eq_trailingWildcard_iff
  blamed _ h := FieldPath.parse_eq_error_iff.1 h

/-- **Reading accepts exactly the grammar, blames the first defect and is the inverse of writing**:
every canonical list of segments is that of the path that its written form is read as, paths with
the same written form are equal, and paths are read back from the data that describes them. -/
theorem parse_inverts_text :
    (∀ s, ReadByGrammar s) ∧
    (∀ ss, IsCanonical ss → ∃ p : FieldPath, p.segments = ss ∧
      p.text = ".".intercalate (ss.map Segment.text) ∧
      FieldPath.parse (".".intercalate (ss.map Segment.text)) = .ok p) ∧
    (∀ p : FieldPath, IsCanonical p.segments ∧ FieldPath.parse p.text = .ok p) ∧
    Function.Injective FieldPath.text ∧
    ∀ o : Overrides, ∃ written,
      WrittenOverrides.decode (Node.ofValue o.encode) = some written ∧ written.parse = .ok o := by
  refine ⟨readByGrammar, fun ss h => ?_, fun p => ⟨p.segments_canonical, p.parse_text⟩,
    FieldPath.text_injective, fun o => ?_⟩
  · obtain ⟨p, rfl⟩ := h.exists_path
    refine ⟨p, rfl, p.text_eq, ?_⟩
    rw [← p.text_eq]
    exact p.parse_text
  · exact ⟨_, WrittenOverrides.decode_encode o, WrittenOverrides.parse_text o⟩

/-- A path through two wildcards. -/
theorem parse_inverts_text_filter_key :
    IsCanonical [.field "Rules", .element, .field "Filter", .field "Tags", .element, .field "Key"] ∧
    ∃ p : FieldPath, p.text = "Rules..Filter.Tags..Key" ∧
      FieldPath.parse "Rules..Filter.Tags..Key" = .ok p := by
  have hnames : ∀ n ∈ ["Rules", "Filter", "Tags", "Key"], isFieldName n = true := by decide
  have hcanonical : IsCanonical
      [.field "Rules", .element, .field "Filter", .field "Tags", .element, .field "Key"] := by
    refine ⟨⟨_, rfl⟩, ⟨_, rfl⟩, by simp, fun n hn => isFieldName_iff.1 (hnames n ?_)⟩
    simpa using hn
  obtain ⟨p, -, htext, hparse⟩ := parse_inverts_text.2.1 _ hcanonical
  exact ⟨hcanonical, p, htext, hparse⟩

end ResourceDelta
