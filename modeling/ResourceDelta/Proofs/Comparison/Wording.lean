import Mathlib.Data.List.Rotate
import ResourceDelta.Proofs.Comparison.Indentation

/-!
# What the lines of a fragment say

A line of a fragment says something of one field, or it closes a block.  `Code.text` is the wording
of what is said, in Go.  Whatever the operands are called, no two things are worded alike, so a line
can be read.

* `exists_isRotated_of_append` — a text that is pushed behind another one is rotated on its way.
* `Phrase.eq_of_text_eq` — what is said of a field, and of which, can be told from the wording.
* `Code.readLine?_eq_some_iff` — a line is read as what it says at its level, and as nothing else.
* `Code.readLine?_text` — the lines of statements say what they should.
* `IsFragment` — the lines of a fragment; `FieldTree.Outlines.isFragment` gives those of a program.
-/

set_option autoImplicit false

namespace ResourceDelta

/-! ## Wording -/

/-- What a line may say of a field. -/
inductive Phrase where
  /-- That a difference is recorded. -/
  | record
  /-- That what follows is for unequal values. -/
  | unequal (check : Check)
  /-- That what follows is for one value that is nil and one that is not. -/
  | oneNil
  /-- That what follows is for two values that are not nil, after what is for one that is. -/
  | present
  deriving DecidableEq, Repr

/-- What stands around the two values of a field. -/
structure Words where
  before : String
  between : String
  behind : String

namespace Phrase

/-- The words of a phrase. -/
def words : Phrase → Words
  | record => ⟨"\", ", ", ", ")"⟩
  | unequal .targets => ⟨"if *", " != *", " \x7b"⟩
  | unequal .times => ⟨"if !", ".Equal(", ") \x7b"⟩
  | unequal .stringMaps => ⟨"if !ackcompare.MapStringStringPEqual(", ", ", ") \x7b"⟩
  | unequal .stringLists => ⟨"if !ackcompare.SliceStringPEqual(", ", ", ") \x7b"⟩
  | unequal .bytes => ⟨"if !bytes.Equal(", ", ", ") \x7b"⟩
  | unequal .deep => ⟨"if !reflect.DeepEqual(", ", ", ") \x7b"⟩
  | oneNil => ⟨"if ackcompare.HasNilDifference(", ", ", ") \x7b"⟩
  | present => ⟨"\x7d else if ", " != nil && ", " != nil \x7b"⟩

/-- What stands before the words of a phrase. -/
def lead (names : Names) (path : FieldPath) : Phrase → String
  | record => names.delta ++ ".Add(\"" ++ names.root ++ path.text
  | _ => ""

/-- The wording of a phrase about a field. -/
def text (names : Names) (path : FieldPath) (phrase : Phrase) : String :=
  phrase.lead names path ++ phrase.words.before ++ names.left ++ "." ++ path.text ++
    phrase.words.between ++ names.right ++ "." ++ path.text ++ phrase.words.behind

/-- All phrases. -/
def all : List Phrase :=
  [record, unequal .targets, unequal .times, unequal .stringMaps, unequal .stringLists,
    unequal .bytes, unequal .deep, oneNil, present]

theorem mem_all (phrase : Phrase) : phrase ∈ all := by
  cases phrase with
  | unequal check => cases check <;> decide
  | record => decide
  | oneNil => decide
  | present => decide

end Phrase

/-- What a line says. -/
inductive Code where
  /-- Something of a field. -/
  | said (phrase : Phrase) (path : FieldPath)
  /-- That a block ends. -/
  | closing
  deriving DecidableEq, Repr

/-- The wording of what is said. -/
def Code.text (names : Names) : Code → String
  | .said phrase path => phrase.text names path
  | .closing => "\x7d"

/-! ## Phrases are told apart -/

/-- If a row starts the same with and without another before it, that one is rotated to its back. -/
theorem exists_isRotated_of_append {α : Type} {x y : List α} : ∀ {l f : List α},
    f ++ l ++ x = l ++ y → ∃ g, f.IsRotated g ∧ y = g ++ x
  | [], f, h => ⟨f, .refl f, by simpa using h.symm⟩
  | c :: l, [], h => ⟨[], .refl [], by simpa using h.symm⟩
  | c :: l, d :: f, h => by
    obtain ⟨rfl, h⟩ := List.cons.inj h
    obtain ⟨g, hg, hy⟩ := exists_isRotated_of_append (l := l) (f := f ++ [d]) (by simpa using h)
    exact ⟨g, List.IsRotated.cons_append_singleton.trans hg, hy⟩

namespace Phrase

variable {names : Names} {a b : Phrase} {p q : FieldPath}

theorem getLast?_text (names : Names) (p : FieldPath) (a : Phrase) :
    (a.text names p).toList.getLast? = some (if a = .record then ')' else '\x7b') := by
  unfold text
  rw [String.toList_append, List.getLast?_append]
  cases a with
  | unequal check => cases check <;> rfl
  | record => rfl
  | oneNil => rfl
  | present => rfl

/-- What stands behind the left operand. -/
def rest (names : Names) (p : FieldPath) (a : Phrase) : List Char :=
  '.' :: (p.text.toList ++ (a.words.between ++ names.right ++ "." ++ p.text ++
    a.words.behind).toList)

theorem toList_text (h : a ≠ .record) :
    (a.text names p).toList = a.words.before.toList ++ names.left.toList ++ a.rest names p := by
  have hlead : a.lead names p = "" := by
    cases a with
    | record => exact absurd rfl h
    | unequal check => rfl
    | oneNil => rfl
    | present => rfl
  unfold text rest
  rw [hlead]
  simp only [String.toList_append, List.append_assoc]
  rfl

theorem exists_head?_text (names : Names) (p : FieldPath) (h : a ≠ .record) :
    ∃ x, (a.text names p).toList.head? = some x ∧ x ≠ '\t' := by
  rw [toList_text h]
  cases a with
  | record => exact absurd rfl h
  | unequal check => cases check <;> exact ⟨'i', rfl, by decide⟩
  | oneNil => exact ⟨'i', rfl, by decide⟩
  | present => exact ⟨'\x7d', rfl, by decide⟩

/-- Of what a phrase starts with, only the words for points in time start other words too. -/
theorem eq_or_times_of_mem_all : ∀ a ∈ all, ∀ b ∈ all, a ≠ .record → b ≠ .record →
    a.words.before.toList <+: b.words.before.toList → a = b ∨ a = .unequal .times := by
  decide +kernel

theorem call_of_mem_all : ∀ b ∈ all, "if !".toList <+: b.words.before.toList →
    b = .unequal .times ∨ '(' ∈ b.words.before.toList.drop 4 ∧
      (b.words.before.toList.drop 4).count '.' ≤ 1 := by
  decide +kernel

/-- A comparison of points in time is not worded like a call, whatever the operands are called: its
method stands behind a path after a dot, and the function of a call has one dot only. -/
theorem text_times_ne (hparen : '(' ∈ b.words.before.toList.drop 4)
    (hdots : (b.words.before.toList.drop 4).count '.' ≤ 1)
    (hif : "if !".toList <+: b.words.before.toList) (hb : b ≠ .record) :
    (Phrase.unequal .times).text names p ≠ b.text names q := by
  intro h
  have hcall : b.words.before.toList = "if !".toList ++ b.words.before.toList.drop 4 :=
    List.prefix_iff_eq_append.1 hif |>.symm
  have hchars := congrArg String.toList h
  rw [toList_text (by simp), toList_text hb, hcall, List.append_assoc, List.append_assoc,
    List.append_assoc] at hchars
  obtain ⟨g, hg, hrest⟩ := exists_isRotated_of_append
    ((List.append_assoc ..).trans (List.append_cancel_left hchars).symm)
  have hmethod : '.' :: (p.text.toList ++ ".Equal".toList) <+: g ++ b.rest names q := by
    rw [← hrest]
    exact ⟨'(' :: (names.right ++ "." ++ p.text ++ ") \x7b").toList, by
      simp [rest, words, String.toList_append]⟩
  rcases List.prefix_or_prefix_of_prefix hmethod (List.prefix_append g _) with hfew | hfew
  · have hcount := (hfew.sublist.count_le '.').trans_eq (hg.perm.count_eq '.').symm
    have htwo : 2 ≤ ('.' :: (p.text.toList ++ ".Equal".toList)).count '.' := by
      simp
    omega
  · have hpath : '(' ∉ p.text.toList := fun hc => absurd (FieldPath.mem_text hc) (by decide)
    have hmem := hfew.subset (hg.perm.mem_iff.1 hparen)
    simp [hpath] at hmem

theorem eq_of_starts (ha : a ≠ .record) (hb : b ≠ .record)
    (hstarts : a.words.before.toList <+: b.words.before.toList)
    (h : a.text names p = b.text names q) : a = b := by
  rcases eq_or_times_of_mem_all a (mem_all a) b (mem_all b) ha hb hstarts with rfl | rfl
  · rfl
  · rcases call_of_mem_all b (mem_all b) hstarts with rfl | ⟨hparen, hdots⟩
    · rfl
    · exact absurd h (text_times_ne hparen hdots hstarts hb)

theorem path_eq_of_text_eq (h : a.text names p = a.text names q) : p = q := by
  have hlength : p.text.length = q.text.length := by
    have hall := congrArg String.length h
    unfold text lead at hall
    cases a <;> simp only [String.length_append] at hall <;> omega
  have hchars := congrArg String.toList h
  refine FieldPath.text_injective (String.toList_injective ?_)
  unfold text lead at hchars
  cases a <;>
    simp only [String.toList_append, List.append_assoc, List.append_cancel_left_eq] at hchars <;>
    exact (List.append_inj hchars hlength).1

/-- **What is said of a field, and of which, can be told from the wording.** -/
theorem eq_of_text_eq (h : a.text names p = b.text names q) : a = b ∧ p = q := by
  have hlast := congrArg (fun s : String => s.toList.getLast?) h
  simp only [getLast?_text, Option.some.injEq] at hlast
  have hphrase : a = b := by
    by_cases ha : a = .record
    · by_cases hb : b = .record
      · rw [ha, hb]
      · simp [ha, hb] at hlast
    · by_cases hb : b = .record
      · simp [ha, hb] at hlast
      · have hchars := congrArg String.toList h
        rw [toList_text ha, toList_text hb, List.append_assoc, List.append_assoc] at hchars
        rcases List.prefix_or_prefix_of_prefix (List.prefix_append _ _)
          (hchars ▸ List.prefix_append _ _) with hstarts | hstarts
        · exact (eq_of_starts hb ha hstarts h.symm).symm
        · exact eq_of_starts ha hb hstarts h
  subst hphrase
  exact ⟨rfl, path_eq_of_text_eq h⟩

end Phrase

/-! ## Lines are told apart -/

theorem leadingTabs_tabs_append (n : Nat) (s : String) :
    leadingTabs (tabs n ++ s) = n + leadingTabs s := by
  unfold leadingTabs
  rw [String.toList_append, toList_tabs, List.takeWhile_append_of_pos (by simp),
    List.length_append, List.length_replicate]

/-- What stands behind a text that is not all tabs has no part in its margin. -/
theorem leadingTabs_append {s : String} {x : Char} (hx : x ∈ s.toList) (h : x ≠ '\t') (t : String) :
    leadingTabs (s ++ t) = leadingTabs s := by
  unfold leadingTabs
  rw [String.toList_append, List.takeWhile_append, if_neg]
  intro hlength
  rw [← (List.takeWhile_prefix _).eq_of_length hlength] at hx
  exact h (by simpa using List.mem_takeWhile_imp hx)

namespace Code

variable {names : Names} {c d : Code}

/-- How many tabs the wording starts with. -/
def margin (names : Names) : Code → Nat
  | .said .record _ => leadingTabs (names.delta ++ ".")
  | _ => 0

theorem leadingTabs_text (names : Names) (c : Code) :
    leadingTabs (c.text names) = c.margin names := by
  cases c with
  | closing => simp [text, leadingTabs, margin]
  | said a p =>
    by_cases ha : a = .record
    · subst ha
      unfold text Phrase.text Phrase.lead margin
      have hadd : names.delta ++ ".Add(\"" = names.delta ++ "." ++ "Add(\"" := by
        rw [String.append_assoc]
        rfl
      simp only [hadd, String.append_assoc]
      rw [← String.append_assoc, leadingTabs_append (x := '.') (by simp) (by decide)]
    · obtain ⟨x, hx, htab⟩ := Phrase.exists_head?_text names p ha
      have hzero := leadingTabs_tabs 0 hx htab
      rw [show tabs 0 = "" from rfl, String.empty_append] at hzero
      refine hzero.trans ?_
      cases a <;> first | rfl | exact absurd rfl ha

/-- The last character of the wording. -/
def last : Code → Char
  | .said phrase _ => if phrase = .record then ')' else '\x7b'
  | .closing => '\x7d'

theorem getLast?_text (names : Names) (c : Code) :
    (c.text names).toList.getLast? = some c.last := by
  cases c with
  | said phrase path => exact phrase.getLast?_text names path
  | closing => simp [text, last]

theorem margin_eq_of_last (names : Names) (h : c.last = d.last) :
    c.margin names = d.margin names := by
  have hrecord : ∀ c : Code, c.margin names =
      if c.last = ')' then leadingTabs (names.delta ++ ".") else 0 := by
    intro c
    cases c with
    | closing => rfl
    | said a p => cases a <;> rfl
  rw [hrecord, hrecord, h]

theorem text_said_ne (names : Names) (a : Phrase) (p : FieldPath) :
    (Code.said a p).text names ≠ Code.closing.text names := by
  intro h
  have hlast := congrArg (fun s : String => s.toList.getLast?) h
  simp only [getLast?_text, last] at hlast
  split at hlast <;> simp at hlast

theorem text_injective (names : Names) : Function.Injective (Code.text names) := by
  intro c d h
  cases c with
  | said a p =>
    cases d with
    | said b q =>
      obtain ⟨rfl, rfl⟩ := Phrase.eq_of_text_eq h
      rfl
    | closing => exact absurd h (text_said_ne names a p)
  | closing =>
    cases d with
    | said b q => exact absurd h.symm (text_said_ne names b q)
    | closing => rfl

/-- **No two things are worded alike at any levels.** -/
theorem eq_of_line_eq {m n : Nat} (h : tabs m ++ c.text names = tabs n ++ d.text names) :
    m = n ∧ c = d := by
  have hlast := congrArg (fun s : String => s.toList.getLast?) h
  simp only [String.toList_append, List.getLast?_append, getLast?_text, Option.some_or,
    Option.some.injEq] at hlast
  have htabs := congrArg leadingTabs h
  rw [leadingTabs_tabs_append, leadingTabs_tabs_append, leadingTabs_text, leadingTabs_text,
    margin_eq_of_last names hlast] at htabs
  obtain rfl := Nat.add_right_cancel htabs
  refine ⟨rfl, text_injective names (String.toList_injective ?_)⟩
  have hchars := congrArg String.toList h
  rw [String.toList_append, String.toList_append] at hchars
  exact List.append_cancel_left hchars

end Code

/-! ## Reading lines -/

/-- The paths that stand somewhere in a text. -/
def pathsIn (text : String) : List FieldPath :=
  (text.toList.tails.flatMap List.inits).filterMap fun part =>
    (FieldPath.parse (String.ofList part)).toOption

theorem mem_pathsIn {text : String} {p : FieldPath} (h : p.text.toList <:+: text.toList) :
    p ∈ pathsIn text := by
  obtain ⟨before, behind, htext⟩ := h
  refine List.mem_filterMap.2
    ⟨p.text.toList, List.mem_flatMap.2 ⟨p.text.toList ++ behind, ?_, ?_⟩, ?_⟩
  · rw [List.mem_tails, ← htext, List.append_assoc]
    exact List.suffix_append _ _
  · rw [List.mem_inits]
    exact List.prefix_append _ _
  · rw [String.ofList_toList, FieldPath.parse_text]
    rfl

namespace Code

variable {names : Names} {line : String} {level : Nat} {c : Code}

/-- What a line might say, and at which levels. -/
def candidates (line : String) : List (Nat × Code) :=
  List.range (leadingTabs line + 1) ×ˢ
    (.closing :: (Phrase.all ×ˢ pathsIn line).map fun c => .said c.1 c.2)

/-- What a line says, and at which level. -/
def readLine? (names : Names) (line : String) : Option (Nat × Code) :=
  (candidates line).find? fun c => tabs c.1 ++ c.2.text names = line

theorem mem_candidates (names : Names) (level : Nat) (c : Code) :
    (level, c) ∈ candidates (tabs level ++ c.text names) := by
  refine List.pair_mem_product.2 ⟨?_, ?_⟩
  · rw [List.mem_range, leadingTabs_tabs_append]
    omega
  cases c with
  | closing => exact List.mem_cons_self
  | said a p =>
    refine List.mem_cons_of_mem _ (List.mem_map.2 ⟨(a, p), List.pair_mem_product.2 ⟨a.mem_all, ?_⟩,
      rfl⟩)
    refine mem_pathsIn ⟨(tabs level ++ (a.lead names p ++ a.words.before ++ names.left ++ "." ++
      p.text ++ a.words.between ++ names.right ++ ".")).toList, a.words.behind.toList, ?_⟩
    simp only [text, Phrase.text, String.toList_append, List.append_assoc]

/-- **A line is read as what it says at its level**, and as nothing else. -/
theorem readLine?_eq_some_iff :
    readLine? names line = some (level, c) ↔ tabs level ++ c.text names = line := by
  constructor
  · intro h
    simpa using List.find?_some h
  · rintro rfl
    cases hread : readLine? names (tabs level ++ c.text names) with
    | none =>
      have hnone := List.find?_eq_none.1 hread _ (mem_candidates names level c)
      simp at hnone
    | some read =>
      have hsame : tabs read.1 ++ read.2.text names = tabs level ++ c.text names := by
        simpa using List.find?_some hread
      obtain ⟨hlevel, hcode⟩ := eq_of_line_eq hsame
      rw [← hlevel, ← hcode]

/-- The code that a thing is said in. -/
def template : Code → Template
  | .said .record path => recordLine path
  | .said (.unequal check) path => unequalLine check path
  | .said .oneNil path => oneNilLine path
  | .said .present path => presentLine path
  | .closing => closingLine

theorem fill_template (names : Names) (c : Code) :
    Template.fill c.template names = c.text names := by
  apply String.toList_injective
  cases c with
  | closing => simp [template, closingLine, Template.fill, Piece.fill, text]
  | said a p =>
    unfold text Phrase.text Template.fill
    cases a with
    | unequal check =>
      cases check <;> simp [template, unequalLine, Check.condition, operand, Piece.fill, Names.of,
        Phrase.lead, Phrase.words]
    | record =>
      simp [template, recordLine, operand, Piece.fill, Names.of, Phrase.lead, Phrase.words]
    | oneNil =>
      simp [template, oneNilLine, operand, Piece.fill, Names.of, Phrase.lead, Phrase.words]
    | present =>
      simp [template, presentLine, operand, Piece.fill, Names.of, Phrase.lead, Phrase.words]

/-- The line in which a thing is said is read as that. -/
theorem readLine?_text (names : Names) (level : Nat) (c : Code) :
    readLine? names (Line.text names ⟨level, c.template⟩) = some (level, c) := by
  rw [readLine?_eq_some_iff, Line.text, fill_template]

end Code

/-! ## Fragments -/

/-- What precedes a path when it is recorded below the way to the Spec. -/
def recordRoot (specRoot : String) : String :=
  if dropLeadingDots specRoot = "" then "" else dropLeadingDots specRoot ++ "."

/-- What things are called below the way to the Spec. -/
def Operands.namesBelow (o : Operands) (specRoot : String) : Names :=
  ⟨o.left ++ specRoot, o.right ++ specRoot, recordRoot specRoot, o.delta⟩

/-- Some lines are those of the fragment for a resource. -/
structure IsFragment (resource : Resource) (target : Flavor) (operands : Operands) (indent : Nat)
    (lines : List String) : Prop where
  /-- The fragment is an empty line and then these. -/
  fragment_eq : compareResource target resource operands indent = .ok (joinLines ("" :: lines))
  /-- They are single lines, if the texts that the fragment refers to are. -/
  single : (∀ s ∈ [operands.delta, operands.left, operands.right, target.specRoot],
    '\n' ∉ s.toList) → ∀ line ∈ lines, '\n' ∉ line.toList

theorem newline_not_mem_namesBelow {o : Operands} {specRoot : String}
    (h : ∀ s ∈ [o.delta, o.left, o.right, specRoot], '\n' ∉ s.toList) (hole : Hole) :
    '\n' ∉ ((o.namesBelow specRoot).of hole).toList := by
  simp only [List.forall_mem_cons, List.not_mem_nil, false_imp_iff, implies_true, and_true] at h
  obtain ⟨hdelta, hleft, hright, hroot⟩ := h
  have hdropped : '\n' ∉ (dropLeadingDots specRoot).toList := by
    unfold dropLeadingDots
    rw [String.toList_ofList]
    exact fun hc => hroot ((List.dropWhile_sublist _).mem hc)
  cases hole with
  | left => simp [Operands.namesBelow, Names.of, hleft, hroot]
  | right => simp [Operands.namesBelow, Names.of, hright, hroot]
  | root =>
    show '\n' ∉ (recordRoot specRoot).toList
    unfold recordRoot
    split <;> simp [hdropped]
  | delta => exact hdelta

/-- The lines of a resource's program are those of its fragment. -/
theorem FieldTree.Outlines.isFragment {resource : Resource} {os : Outline}
    (h : resource.spec.Outlines os) (target : Flavor) (operands : Operands) (indent : Nat) :
    IsFragment resource target operands indent
      ((programLines indent (os.read .statements resource.spec.ignores .top)).map
        (Line.text (operands.namesBelow target.specRoot))) where
  fragment_eq := by
    rw [compareResource_eq h, fill_layout]
    rfl
  single hs := newline_not_mem_programLines (newline_not_mem_namesBelow hs) indent _

end ResourceDelta
