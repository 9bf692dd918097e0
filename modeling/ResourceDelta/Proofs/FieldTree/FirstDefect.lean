import Mathlib.Data.List.Lex
import ResourceDelta.Proofs.FieldTree.Building

/-!
# What definitions are rejected for

Definitions from which no tree is built are rejected for their first defect.  The fields that they
define, those of named shapes included, have addresses: the place in the list, then that in the list
of members below, and so on.  In the order of addresses a field comes before its members, and these
before the field's later siblings.  A recursive shape gives rise to infinitely many fields, which is
no obstacle: an address is finite.

* `Place` — what is to be known of a field to tell its own defects, and `Place.defects` these, in
  the order in which they are reported.
* `Site.place?` — the place at an address; nothing in it depends on the fields after it.
* `Site.IsFirstDefect` — the first defect of the first place that has any.
* `Stocked` — what carries the induction: the visit has seen the earlier siblings, and nothing else
  at or below the members of the scope.
* `insertMembers_judged` — a visit reports the first defect of the fields it visits, or there is
  none.
* `build_reports_first_defect` — what `FieldTree.build` reports.
-/

set_option autoImplicit false

namespace ResourceDelta

/-! ## The defects of one field -/

/-- Where a field takes its members from, and whether there are any. -/
inductive MemberSource where
  /-- The field is a leaf. -/
  | none
  /-- The definition lists the members. -/
  | own (isEmpty : Bool)
  /-- The members are those of a shape, which is empty, not empty or not there at all; the
  definition may list members as well. -/
  | shape (name : String) (listsOwn : Bool) (isEmpty? : Option Bool)
  deriving DecidableEq, Repr

/-- Where a field that lists `own` members and may name a shape takes its members from. -/
def MemberSource.of (shapes : ShapeTable) (own : List FieldDefinition) :
    Option String → MemberSource
  | .none => .own own.isEmpty
  | .some name => .shape name (!own.isEmpty) ((shapes.find? name).map List.isEmpty)

/-- Where a defined field takes its members from. -/
def FieldDefinition.source (shapes : ShapeTable) : FieldDefinition → MemberSource
  | .leaf _ _ => .none
  | .nested _ _ own shape => .of shapes own shape

/-- The defects of the members' source for the field at `path`, which is inside of the shapes
`chain`. -/
def MemberSource.defects (path : FieldPath) (chain : List String) : MemberSource → List Defect
  | .none => []
  | .own isEmpty => if isEmpty then [.emptyStruct path] else []
  | .shape name listsOwn isEmpty? =>
    (if listsOwn then [.ambiguousStruct path] else []) ++
    (if name ∈ chain then [.recursiveShape path name] else []) ++
    match isEmpty? with
    | .none => [.unresolvedShape path name]
    | .some isEmpty => if isEmpty then [.emptyStruct path] else []

/-- A field as it is seen without looking at its members or at later fields. -/
structure Place where
  /-- Where the field stands. -/
  scope : Scope
  /-- The shapes that it is inside of, outermost first. -/
  chain : List String
  /-- The names of the siblings before it. -/
  earlier : List String
  name : String
  source : MemberSource
  deriving DecidableEq, Repr

/-- A defined field, after the earlier siblings. -/
def FieldDefinition.place (shapes : ShapeTable) (scope : Scope) (chain earlier : List String)
    (d : FieldDefinition) : Place :=
  ⟨scope, chain, earlier, d.name, d.source shapes⟩

/-- The defects of a field, in the order in which they are reported.  Without a valid name there is
no path for others to be reported at. -/
def Place.defects (p : Place) : List Defect :=
  match p.scope.path p.name with
  | .error cause => [.invalidName cause]
  | .ok path =>
    (if p.name ∈ p.earlier then [.duplicateField path] else []) ++ p.source.defects path p.chain

/-! ## All fields and their order -/

/-- A list of members, or what is left of one. -/
structure Site where
  scope : Scope
  /-- The shapes that the list is inside of, outermost first. -/
  chain : List String
  /-- The names of the siblings before the list. -/
  earlier : List String
  listed : List FieldDefinition

/-- The members below a defined field, those of a named shape in its place. -/
def FieldDefinition.site (shapes : ShapeTable) (scope : Scope) (chain : List String) :
    FieldDefinition → Site
  | .leaf _ _ => ⟨scope, chain, [], []⟩
  | .nested name nesting own shape =>
    if isName : isFieldName name = true then
      let inner := nesting.scope (scope.extend ⟨name, isName⟩)
      match shape with
      | none => ⟨inner, chain, [], own⟩
      | some shape => ⟨inner, chain ++ [shape], [], (shapes.find? shape).getD []⟩
    else ⟨scope, chain, [], []⟩

/-- The place at an address: a place in the list, and then an address among the members below. -/
def Site.place? (shapes : ShapeTable) : List Nat → Site → Option Place
  | [], _ => none
  | [i], site => site.listed[i]?.map fun d =>
    d.place shapes site.scope site.chain
      (site.earlier ++ (site.listed.take i).map FieldDefinition.name)
  | i :: j :: address, site => site.listed[i]?.bind fun d =>
    (d.site shapes site.scope site.chain).place? shapes (j :: address)

/-- The definitions of a root. -/
def Site.root (definitions : List FieldDefinition) : Site :=
  ⟨.top, [], [], definitions⟩

/-- No field has a defect. -/
def Site.IsSound (shapes : ShapeTable) (site : Site) : Prop :=
  ∀ address place, site.place? shapes address = some place → place.defects = []

/-- The field at an address has a defect and this is its first, and no field before has any. -/
structure Site.IsFirstDefect (shapes : ShapeTable) (site : Site) (address : List Nat)
    (defect : Defect) : Prop where
  reported : ∃ place, site.place? shapes address = some place ∧ place.defects.head? = some defect
  first : ∀ before < address, ∀ place, site.place? shapes before = some place → place.defects = []

variable {shapes : ShapeTable} {visiting : List String} {scope : Scope} {fields : Array Field}
  {chain earlier : List String} {d : FieldDefinition} {ds : List FieldDefinition} {e : Defect}

namespace Site

theorem place?_here :
    (⟨scope, chain, earlier, d :: ds⟩ : Site).place? shapes [0] =
      some (d.place shapes scope chain earlier) := by
  simp [place?]

theorem place?_below {i : Nat} {a : List Nat} :
    (⟨scope, chain, earlier, d :: ds⟩ : Site).place? shapes (0 :: i :: a) =
      (d.site shapes scope chain).place? shapes (i :: a) :=
  rfl

theorem place?_later {i : Nat} : ∀ {a : List Nat},
    (⟨scope, chain, earlier, d :: ds⟩ : Site).place? shapes ((i + 1) :: a) =
      (⟨scope, chain, earlier ++ [d.name], ds⟩ : Site).place? shapes (i :: a)
  | [] => by simp [place?]
  | _ :: _ => rfl

/-- A field of a list is its first, is below this, or is among those after it. -/
theorem place?_cons_cases {a : List Nat} {p : Place}
    (h : (⟨scope, chain, earlier, d :: ds⟩ : Site).place? shapes a = some p) :
    (a = [0] ∧ p = d.place shapes scope chain earlier) ∨
      (∃ b, a = 0 :: b ∧ (d.site shapes scope chain).place? shapes b = some p) ∨
      ∃ i b, a = (i + 1) :: b ∧
        (⟨scope, chain, earlier ++ [d.name], ds⟩ : Site).place? shapes (i :: b) = some p := by
  match a with
  | [] => cases h
  | [0] =>
    rw [place?_here] at h
    exact .inl ⟨rfl, (Option.some.inj h).symm⟩
  | 0 :: i :: b => exact .inr (.inl ⟨i :: b, rfl, h⟩)
  | (i + 1) :: b =>
    rw [place?_later] at h
    exact .inr (.inr ⟨i, b, rfl, h⟩)

theorem isSound_nil : (⟨scope, chain, earlier, []⟩ : Site).IsSound shapes := by
  intro a p h
  match a with
  | [] => cases h
  | [_] => cases h
  | _ :: _ :: _ => cases h

theorem IsSound.cons
    (head : (d.place shapes scope chain earlier).defects = [])
    (below : (d.site shapes scope chain).IsSound shapes)
    (later : (⟨scope, chain, earlier ++ [d.name], ds⟩ : Site).IsSound shapes) :
    (⟨scope, chain, earlier, d :: ds⟩ : Site).IsSound shapes := by
  intro a p h
  rcases place?_cons_cases h with ⟨-, rfl⟩ | ⟨b, -, hp⟩ | ⟨i, b, -, hp⟩
  · exact head
  · exact below b p hp
  · exact later (i :: b) p hp

namespace IsFirstDefect

theorem here
    (head : (d.place shapes scope chain earlier).defects.head? = some e) :
    (⟨scope, chain, earlier, d :: ds⟩ : Site).IsFirstDefect shapes [0] e := by
  refine ⟨⟨_, place?_here, head⟩, fun b hb p hp => ?_⟩
  match b with
  | [] => cases hp
  | i :: b => simp [List.cons_lt_cons_iff] at hb

theorem below {a : List Nat}
    (head : (d.place shapes scope chain earlier).defects = [])
    (h : (d.site shapes scope chain).IsFirstDefect shapes a e) :
    (⟨scope, chain, earlier, d :: ds⟩ : Site).IsFirstDefect shapes (0 :: a) e := by
  obtain ⟨⟨p, hp, he⟩, hfirst⟩ := h
  refine ⟨⟨p, ?_, he⟩, fun b hb q hq => ?_⟩
  · match a with
    | [] => cases hp
    | i :: a => rw [place?_below, hp]
  · rcases place?_cons_cases hq with ⟨-, rfl⟩ | ⟨b, rfl, hbq⟩ | ⟨i, b, rfl, -⟩
    · exact head
    · rcases List.cons_lt_cons_iff.1 hb with hlt | ⟨-, hlt⟩
      · exact absurd hlt (Nat.lt_irrefl 0)
      · exact hfirst b hlt q hbq
    · rcases List.cons_lt_cons_iff.1 hb with hlt | ⟨heq, -⟩ <;> omega

theorem later {i : Nat} {a : List Nat}
    (head : (d.place shapes scope chain earlier).defects = [])
    (hbelow : (d.site shapes scope chain).IsSound shapes)
    (h : (⟨scope, chain, earlier ++ [d.name], ds⟩ : Site).IsFirstDefect shapes (i :: a) e) :
    (⟨scope, chain, earlier, d :: ds⟩ : Site).IsFirstDefect shapes ((i + 1) :: a) e := by
  obtain ⟨⟨p, hp, he⟩, hfirst⟩ := h
  refine ⟨⟨p, ?_, he⟩, fun b hb q hq => ?_⟩
  · rw [place?_later, hp]
  · rcases place?_cons_cases hq with ⟨-, rfl⟩ | ⟨b, -, hbq⟩ | ⟨j, b, rfl, hbq⟩
    · exact head
    · exact hbelow b q hbq
    · refine hfirst (j :: b) ?_ q hbq
      simpa [List.cons_lt_cons_iff] using hb

/-- Where fields have a defect, there is one first defect. -/
theorem unique {site : Site} {a a' : List Nat} {e' : Defect} (h : site.IsFirstDefect shapes a e)
    (h' : site.IsFirstDefect shapes a' e') : e = e' := by
  obtain ⟨⟨p, hp, he⟩, hfirst⟩ := h
  obtain ⟨⟨p', hp', he'⟩, hfirst'⟩ := h'
  rcases lt_trichotomy a a' with hlt | rfl | hlt
  · rw [hfirst' a hlt p hp] at he
    cases he
  · rw [hp] at hp'
    cases hp'
    rw [he] at he'
    exact Option.some.inj he'
  · rw [hfirst a' hlt p' hp'] at he'
    cases he'

theorem not_isSound {site : Site} {a : List Nat} (h : site.IsFirstDefect shapes a e) :
    ¬ site.IsSound shapes := by
  intro hs
  obtain ⟨p, hp, he⟩ := h.reported
  rw [hs a p hp] at he
  cases he

/-- The fields after the defective one do not matter. -/
theorem congr {shapes' : ShapeTable} {site site' : Site} {a : List Nat}
    (h : site.IsFirstDefect shapes a e)
    (heq : ∀ b ≤ a, site'.place? shapes' b = site.place? shapes b) :
    site'.IsFirstDefect shapes' a e := by
  refine ⟨?_, fun b hb p hp => h.first b hb p ?_⟩
  · rw [heq a (le_refl a)]
    exact h.reported
  · rw [← heq b (le_of_lt hb)]
    exact hp

end IsFirstDefect

end Site

/-! ## What a visit has seen -/

/-- Of what is at or below the members of a scope, the fields hold the members with the given names
and what is below these. -/
structure Stocked (scope : Scope) (earlier : List String) (fields : Array Field) : Prop where
  present : ∀ n : FieldName, n.text ∈ earlier → ∃ f ∈ fields, f.path = scope.extend n
  absent : ∀ n : FieldName, n.text ∉ earlier → ∀ f ∈ fields, ¬ (scope.extend n).Covers f.path

namespace Stocked

theorem top : Stocked .top [] #[] :=
  ⟨fun _ hn => absurd hn List.not_mem_nil, fun _ _ f hf => absurd hf (Array.not_mem_empty f)⟩

theorem any_path_eq (h : Stocked scope earlier fields) (n : FieldName) :
    (fields.any fun f => f.path = scope.extend n) = decide (n.text ∈ earlier) := by
  by_cases hn : n.text ∈ earlier
  · obtain ⟨f, hf, hpath⟩ := h.present n hn
    rw [decide_eq_true hn, Array.any_eq_true']
    exact ⟨f, hf, decide_eq_true hpath⟩
  · rw [decide_eq_false hn, any_path_eq_false]
    intro f hf hpath
    refine h.absent n hn f hf ?_
    rw [hpath]
    exact .refl _

/-- Before the members of a new field are visited, nothing is at or below them. -/
theorem members {n : FieldName} (h : Stocked scope earlier fields) (hn : n.text ∉ earlier)
    (nesting : Nesting) :
    Stocked (nesting.scope (scope.extend n)) []
      (fields.push (.bare (scope.extend n) nesting.kind)) := by
  refine ⟨fun _ hm => absurd hm List.not_mem_nil, fun m _ f hf hc => ?_⟩
  rcases Array.mem_push.1 hf with hf | rfl
  · exact h.absent n hn f hf ((nesting.covers_extend _ m).trans hc)
  · exact nesting.not_extend_covers _ m hc

/-- After a field has been visited, it is one of the earlier siblings. -/
theorem visited {isName : isFieldName d.name = true} {after : Array Field}
    (h : Stocked scope earlier fields)
    (hd : insertField shapes visiting (scope.extend ⟨d.name, isName⟩) fields d = .ok after) :
    Stocked scope (earlier ++ [d.name]) after := by
  obtain ⟨os, hv⟩ := insertMembers_sound (insertMembers_cons_iff.2
    ⟨isName, after, [], hd, insertMembers_nil_iff.2 ⟨rfl, rfl⟩, rfl⟩)
  have hnames : os.names.map FieldName.text = [d.name] := hv.describes.names_eq.symm
  have hmem : ∀ {f : Field}, f ∈ after ↔
      f ∈ fields ∨ f ∈ os.fields noFlags scope fields.size := by
    intro f
    rw [← Array.mem_toList_iff, hv.toList_eq, List.mem_append, Array.mem_toList_iff]
  constructor
  · intro n hn
    rcases List.mem_append.1 hn with hn | hn
    · obtain ⟨f, hf, hpath⟩ := h.present n hn
      exact ⟨f, hmem.2 (.inl hf), hpath⟩
    · have hos : n ∈ os.names := by
        rw [← hnames] at hn
        exact (List.mem_map_of_injective fun _ _ => FieldName.ext_text).1 hn
      have hpath : scope.extend n ∈ (os.fields noFlags scope fields.size).map Field.path := by
        rw [Outline.map_path_fields]
        exact Outline.extend_mem_paths hos
      obtain ⟨f, hf, hpath⟩ := List.mem_map.1 hpath
      exact ⟨f, hmem.2 (.inr hf), hpath⟩
  · intro n hn f hf hc
    rw [List.mem_append, not_or] at hn
    rcases hmem.1 hf with hf | hf
    · exact h.absent n hn.1 f hf hc
    · refine Outline.not_covers_of_mem_fields (fun hos => hn.2 ?_) hf hc
      rw [← hnames]
      exact List.mem_map_of_mem hos

end Stocked

/-! ## What a visit reports -/

/-- The result of a visit is right for the fields of a site: it succeeds only if these have no
defect, and fails only with the first of their defects. -/
structure Site.IsJudged (shapes : ShapeTable) (site : Site) {α : Type} (result : Except Defect α) :
    Prop where
  sound : ∀ r, result = .ok r → site.IsSound shapes
  defective : ∀ e, result = .error e → ∃ a, site.IsFirstDefect shapes a e

theorem takeMembers_eq_error_iff {path : FieldPath} {own : List FieldDefinition}
    {shape : Option String} :
    takeMembers shapes visiting path own shape = .error e ↔
      ((MemberSource.of shapes own shape).defects path visiting).head? = some e := by
  cases shape with
  | none => cases own <;> simp [takeMembers, MemberSource.of, MemberSource.defects]
  | some s =>
    simp only [takeMembers, MemberSource.of, MemberSource.defects]
    cases own with
    | cons => simp
    | nil =>
      by_cases hnew : s ∈ visiting
      · simp [hnew]
      · cases hfound : shapes.find? s with
        | none => simp [hnew]
        | some listed => cases listed <;> simp [hnew]

theorem defects_place_of_error {cause : PathError} (h : scope.path d.name = .error cause) :
    (d.place shapes scope chain earlier).defects = [.invalidName cause] := by
  show (match scope.path d.name with | .error _ => _ | .ok _ => _) = _
  rw [h]

theorem defects_place (isName : isFieldName d.name = true) :
    (d.place shapes scope chain earlier).defects =
      (if d.name ∈ earlier then [.duplicateField (scope.extend ⟨d.name, isName⟩)] else []) ++
        (d.source shapes).defects (scope.extend ⟨d.name, isName⟩) chain := by
  show (match scope.path d.name with | .error _ => _ | .ok _ => _) = _
  rw [Scope.path_eq_ok_iff.2 ⟨isName, rfl⟩]
  rfl

/-- A field with a defect of its own is rejected for the first of them. -/
theorem insertField_of_defects {isName : isFieldName d.name = true}
    (hs : Stocked scope earlier fields)
    (h : (d.place shapes scope visiting earlier).defects.head? = some e) :
    insertField shapes visiting (scope.extend ⟨d.name, isName⟩) fields d = .error e := by
  have hany := hs.any_path_eq ⟨d.name, isName⟩
  rw [defects_place isName] at h
  by_cases hdup : d.name ∈ earlier
  · rw [decide_eq_true hdup] at hany
    rw [if_pos hdup] at h
    rw [insertField_of_any hany]
    cases h
    rfl
  · rw [if_neg hdup, List.nil_append] at h
    cases d with
    | leaf => cases h
    | nested name nesting own shape =>
      rw [insertField_nested_eq, hany, decide_eq_false hdup, takeMembers_eq_error_iff.2 h]
      rfl

theorem exists_takes_of_defects {own : List FieldDefinition} {shape : Option String}
    {path : FieldPath} (h : (MemberSource.of shapes own shape).defects path visiting = []) :
    ∃ inside listed, Takes shapes visiting own shape inside listed := by
  cases ht : takeMembers shapes visiting path own shape with
  | error e =>
    rw [takeMembers_eq_error_iff, h] at ht
    cases ht
  | ok taken => exact ⟨taken.1, taken.2, takeMembers_eq_ok_iff.1 ht⟩

/-- The members that a field takes stand at its site. -/
theorem Takes.site_eq {name : String} (isName : isFieldName name = true) (nesting : Nesting)
    {own listed : List FieldDefinition} {shape : Option String} {inside : List String}
    (h : Takes shapes visiting own shape inside listed) :
    (FieldDefinition.nested name nesting own shape).site shapes scope visiting =
      ⟨nesting.scope (scope.extend ⟨name, isName⟩), inside, [], listed⟩ := by
  cases h with
  | own => rw [FieldDefinition.site, dif_pos isName]
  | shape _ hfound =>
    rw [FieldDefinition.site, dif_pos isName]
    simp only [hfound, Option.getD_some]

namespace Site.IsJudged

theorem nil {α : Type} (r : α) :
    (⟨scope, chain, earlier, []⟩ : Site).IsJudged shapes (.ok r) :=
  ⟨fun _ _ => isSound_nil, fun _ h => by cases h⟩

/-- A list is rejected for the first defect that its first field has itself. -/
theorem here {α : Type}
    (head : (d.place shapes scope chain earlier).defects.head? = some e) :
    (⟨scope, chain, earlier, d :: ds⟩ : Site).IsJudged shapes (.error e : Except Defect α) := by
  refine ⟨fun r hr => (by cases hr), fun e' he => ?_⟩
  cases he
  exact ⟨[0], .here head⟩

/-- What is done with the result of a visit does not matter. -/
theorem map {site : Site} {α β : Type} {x : Except Defect α} (h : site.IsJudged shapes x)
    (f : α → β) : site.IsJudged shapes (x >>= fun a => .ok (f a)) := by
  constructor
  · intro r hr
    obtain ⟨a, ha, -⟩ := bind_eq_ok.1 hr
    exact h.sound a ha
  · intro e he
    rcases bind_eq_error.1 he with he | ⟨a, -, he⟩
    · exact h.defective e he
    · cases he

/-- A list is judged by its first field, by what is below this, and by the fields after it. -/
theorem cons {α β : Type} {x : Except Defect α} {f : α → Except Defect β}
    (head : (d.place shapes scope chain earlier).defects = [])
    (below : (d.site shapes scope chain).IsJudged shapes x)
    (later : ∀ a, x = .ok a →
      (⟨scope, chain, earlier ++ [d.name], ds⟩ : Site).IsJudged shapes (f a)) :
    (⟨scope, chain, earlier, d :: ds⟩ : Site).IsJudged shapes (x >>= f) := by
  constructor
  · intro r hr
    obtain ⟨a, ha, hr⟩ := bind_eq_ok.1 hr
    exact .cons head (below.sound a ha) ((later a ha).sound r hr)
  · intro e he
    rcases bind_eq_error.1 he with he | ⟨a, ha, he⟩
    · obtain ⟨address, h⟩ := below.defective e he
      exact ⟨_, .below head h⟩
    · obtain ⟨address, h⟩ := (later a ha).defective e he
      match address with
      | [] =>
        obtain ⟨p, hp, -⟩ := h.reported
        cases hp
      | i :: address => exact ⟨_, .later head (below.sound a ha) h⟩

end Site.IsJudged

/-- The visit of a list is judged right if that of its first field is, unless this has a defect of
its own, and that of the fields after it is. -/
theorem insertMembers_cons_judged (hs : Stocked scope earlier fields)
    (below : ∀ isName : isFieldName d.name = true, d.name ∉ earlier →
      (d.source shapes).defects (scope.extend ⟨d.name, isName⟩) visiting = [] →
      (d.site shapes scope visiting).IsJudged shapes
        (insertField shapes visiting (scope.extend ⟨d.name, isName⟩) fields d))
    (later : ∀ after, Stocked scope (earlier ++ [d.name]) after →
      (⟨scope, visiting, earlier ++ [d.name], ds⟩ : Site).IsJudged shapes
        (insertMembers shapes visiting scope after ds)) :
    (⟨scope, visiting, earlier, d :: ds⟩ : Site).IsJudged shapes
      (insertMembers shapes visiting scope fields (d :: ds)) := by
  cases hpath : scope.path d.name with
  | error cause =>
    rw [insertMembers_cons_of_error hpath]
    exact .here (by rw [defects_place_of_error hpath, List.head?_cons])
  | ok path =>
    obtain ⟨isName, -⟩ := Scope.path_eq_ok_iff.1 hpath
    rw [insertMembers_cons_eq isName]
    cases hdef : (d.place shapes scope visiting earlier).defects with
    | cons e rest =>
      have hhead := congrArg List.head? hdef
      rw [insertField_of_defects hs hhead]
      exact .here hhead
    | nil =>
      -- the field has no defect of its own, so the outcome is decided below it or after it
      have hsource := hdef
      rw [defects_place isName, List.append_eq_nil_iff] at hsource
      have hnew : d.name ∉ earlier := by simpa using hsource.1
      exact .cons hdef (below isName hnew hsource.2) fun after hafter =>
        (later after (hs.visited hafter)).map _

/-- **A visit reports the first defect of the fields it visits, or there is none.** -/
theorem insertMembers_judged {visiting : List String} {scope : Scope} {earlier : List String}
    {fields : Array Field} {definitions : List FieldDefinition}
    (hs : Stocked scope earlier fields) :
    (⟨scope, visiting, earlier, definitions⟩ : Site).IsJudged shapes
      (insertMembers shapes visiting scope fields definitions) := by
  match definitions with
  | [] =>
    rw [insertMembers_nil_iff.2 ⟨rfl, rfl⟩]
    exact .nil _
  | .leaf name type :: ds =>
    refine insertMembers_cons_judged hs (fun (isName : isFieldName name = true) hnew _ => ?_)
      fun after hafter => insertMembers_judged hafter
    have hany := (hs.any_path_eq ⟨name, isName⟩).trans (decide_eq_false hnew)
    show Site.IsJudged _ _ (insertField shapes visiting (scope.extend ⟨name, isName⟩) fields _)
    rw [insertField_leaf_iff.2 ⟨any_path_eq_false.1 hany, rfl⟩]
    exact .nil _
  | .nested name nesting own shape :: ds =>
    refine insertMembers_cons_judged hs (fun (isName : isFieldName name = true) hnew hsource => ?_)
      fun after hafter => insertMembers_judged hafter
    obtain ⟨inside, listed, ht⟩ := exists_takes_of_defects hsource
    have hany := (hs.any_path_eq ⟨name, isName⟩).trans (decide_eq_false hnew)
    show Site.IsJudged _ _ (insertField shapes visiting (scope.extend ⟨name, isName⟩) fields _)
    rw [ht.site_eq isName, insertField_nested_eq, hany, takeMembers_eq_ok_iff.2 ht]
    exact (insertMembers_judged (hs.members hnew nesting)).map _
termination_by (unvisited shapes visiting, sizeOf definitions)
decreasing_by
  · exact .right _ (by simp only [List.cons.sizeOf_spec]; omega)
  · exact ht.decreases
  · exact .right _ (by simp only [List.cons.sizeOf_spec]; omega)

theorem FieldTree.build_judged (shapes : ShapeTable) (definitions : List FieldDefinition) :
    (Site.root definitions).IsJudged shapes (FieldTree.build shapes definitions) := by
  have hj : (Site.root definitions).IsJudged shapes
      (insertMembers shapes [] .top #[] definitions) := insertMembers_judged .top
  exact hj.map fun r => (⟨r.2, r.1⟩ : FieldTree)

/-! ## What a name is rejected for -/

/-- What is wrong with a text that does not name a member: it is missing, if nothing is before it,
or it is no name at its place on the path. -/
def Scope.nameError (scope : Scope) (text : String) : PathError :=
  if scope = .top ∧ text = "" then .empty else .invalidName text scope.segments.length

theorem Scope.path_eq_error_iff {scope : Scope} {text : String} {cause : PathError} :
    scope.path text = .error cause ↔ ¬ IsIdentifier text ∧ cause = scope.nameError text := by
  have hread : ∀ {index : Nat} {f : FieldName → FieldPath},
      (do let n ← FieldName.read text index; return f n : Except PathError FieldPath) =
        .error cause ↔ ¬ IsIdentifier text ∧ cause = .invalidName text index := by
    intro index f
    rw [bind_eq_error, FieldName.read_eq_error_iff]
    constructor
    · rintro (h | ⟨n, -, h⟩)
      · exact h
      · cases h
    · exact .inl
  cases scope with
  | top =>
    show FieldPath.ofName text = .error cause ↔ _
    unfold FieldPath.ofName Scope.nameError
    by_cases htext : text = ""
    · have hempty : ¬ IsIdentifier text := by
        rw [← isFieldName_iff, htext]
        decide
      simp [htext ▸ hempty, htext, eq_comm]
    · rw [if_neg htext, if_neg fun h => htext h.2]
      exact hread
  | struct path => exact hread
  | elements path =>
    simp only [Scope.nameError, reduceCtorEq, false_and, if_false, Scope.segments,
      List.length_append, List.length_singleton]
    exact hread

/-! ## What is reported -/

/-- **A tree is built, or the first defect is reported**, and no later field has influence on it.
The cause that comes with an invalid name is that of the function which makes the path. -/
theorem build_reports_first_defect (shapes : ShapeTable) (definitions : List FieldDefinition) :
    (∀ e, FieldTree.build shapes definitions = .error e ↔
      ∃ address, (Site.root definitions).IsFirstDefect shapes address e) ∧
    (∀ address e, (Site.root definitions).IsFirstDefect shapes address e →
      ∀ (shapes' : ShapeTable) (definitions' : List FieldDefinition),
        (∀ upTo ≤ address, (Site.root definitions').place? shapes' upTo =
          (Site.root definitions).place? shapes upTo) →
        FieldTree.build shapes' definitions' = .error e) ∧
    ∀ (scope : Scope) (name : String) (cause : PathError),
      scope.path name = .error cause ↔ ¬ IsIdentifier name ∧ cause = scope.nameError name := by
  have hbuild : ∀ (shapes : ShapeTable) (definitions : List FieldDefinition) (e : Defect),
      FieldTree.build shapes definitions = .error e ↔
        ∃ address, (Site.root definitions).IsFirstDefect shapes address e := by
    intro shapes definitions e
    have hj := FieldTree.build_judged shapes definitions
    constructor
    · exact hj.defective e
    · rintro ⟨a, ha⟩
      cases hb : FieldTree.build shapes definitions with
      | ok t => exact absurd (hj.sound t hb) ha.not_isSound
      | error e' =>
        obtain ⟨a', ha'⟩ := hj.defective e' hb
        rw [ha.unique ha']
  exact ⟨hbuild shapes definitions, fun a e h shapes' definitions' heq =>
    (hbuild shapes' definitions' e).2 ⟨a, h.congr heq⟩, fun _ _ _ => Scope.path_eq_error_iff⟩

/-- Nodes, each of which leads to a node. -/
def nodeShapes : ShapeTable :=
  .ofList [("Node", [.scalar "id" .string, .shapeRef "next" "Node"])]

/-- A list whose elements hold a node, among other defects: the member after the node has no valid
name, and the last field has the name of the first and no members. -/
def nodeDefinitions : List FieldDefinition :=
  [.scalar "name" .string,
    .listOfStruct "items" [.shapeRef "inner" "Node", .scalar "no name" .string],
    .struct "name" []]

/-- The same up to the recursive shape, and no more defects after it. -/
def nodeDefinitions' : List FieldDefinition :=
  [.scalar "name" .integer, .listOfStruct "items" [.shapeRef "inner" "Node"]]

/-- The defect of both. -/
def nodeDefect : Defect :=
  .recursiveShape ⟨⟨"items", by decide⟩,
    [.elementMember ⟨"inner", by decide⟩, .member ⟨"next", by decide⟩]⟩ "Node"

theorem build_reports_first_defect_nodes :
    FieldTree.build nodeShapes nodeDefinitions = .error nodeDefect ∧
      FieldTree.build nodeShapes nodeDefinitions' = .error nodeDefect := by
  have hsound : ∀ {scope : Scope} {chain earlier : List String},
      (⟨scope, chain, earlier, []⟩ : Site).IsSound nodeShapes := Site.isSound_nil
  have hfirst : (Site.root nodeDefinitions).IsFirstDefect nodeShapes [1, 0, 1] nodeDefect :=
    .later (by decide) hsound (.below (by decide) (.below (by decide)
      (.later (by decide) hsound (.here (by decide)))))
  obtain ⟨hiff, hlater, -⟩ := build_reports_first_defect nodeShapes nodeDefinitions
  refine ⟨(hiff nodeDefect).2 ⟨_, hfirst⟩, hlater _ _ hfirst nodeShapes nodeDefinitions' ?_⟩
  intro upTo hle
  match upTo with
  | [] => rfl
  | [0] => rfl
  | 0 :: _ :: _ => rfl
  | [1] => rfl
  | [1, 0] => rfl
  | 1 :: 0 :: _ :: _ => rfl
  | 1 :: (i + 1) :: t =>
    have hlt : [0, 1] < (i + 1) :: t := List.cons_lt_cons_iff.2 (.inl (Nat.succ_pos i))
    exact absurd hle (not_le_of_gt (List.cons_lt_cons_iff.2 (.inr ⟨rfl, hlt⟩)))
  | (i + 2) :: t =>
    have hlt : [1, 0, 1] < (i + 2) :: t := List.cons_lt_cons_iff.2 (.inl (by omega))
    exact absurd hle (not_le_of_gt hlt)

end ResourceDelta
