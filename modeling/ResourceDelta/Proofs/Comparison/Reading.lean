import ResourceDelta.Proofs.FieldTree.Indexed

/-!
# Reading outlines

To read an outline is to make a list of its fields: siblings come in the order of their names, and
ignored fields are left out with all below them.  A `Reading` says what is made of one field.  The
statements of a comparison program are one reading, the fields that they compare are another.

* `joinByName_perm` — siblings with different names may be given in any order.
* `Outline.read` — what is made of the fields of an outline.
* `Outline.read_related` — two readings of one outline are related if what they make of each field
  is.
* `Outline.read_induction` — what holds of what is made of each field holds of what is made of all.
-/

set_option autoImplicit false

namespace ResourceDelta

/-! ## Joining by name -/

/-- What is made of siblings, in the order of their names. -/
def joinByName {α : Type} (parts : List (String × List α)) : List α :=
  (parts.mergeSort fun a b => a.1 ≤ b.1).flatMap Prod.snd

section

variable {α β : Type}

theorem mem_joinByName {parts : List (String × List α)} {x : α} :
    x ∈ joinByName parts ↔ ∃ part ∈ parts, x ∈ part.2 := by
  unfold joinByName
  simp only [List.mem_flatMap, List.mem_mergeSort]

theorem mem_joinByName_cons {n : String} {xs : List α} {parts : List (String × List α)} {x : α} :
    x ∈ joinByName ((n, xs) :: parts) ↔ x ∈ xs ∨ x ∈ joinByName parts := by
  simp only [mem_joinByName, List.mem_cons, exists_eq_or_imp]

/-- Siblings with different names stand in a strictly ascending order. -/
theorem pairwise_mergeSort_names {parts : List (String × List α)}
    (h : (parts.map Prod.fst).Nodup) :
    (parts.mergeSort fun a b => a.1 ≤ b.1).Pairwise fun a b => a.1 < b.1 := by
  have hle : (parts.mergeSort fun a b => a.1 ≤ b.1).Pairwise
      fun a b => decide (a.1 ≤ b.1) = true := by
    apply List.pairwise_mergeSort
    · intro a b c hab hbc
      rw [decide_eq_true_eq] at hab hbc ⊢
      exact String.le_trans hab hbc
    · intro a b
      rw [Bool.or_eq_true, decide_eq_true_eq, decide_eq_true_eq]
      exact String.le_total a.1 b.1
  have hperm : (parts.mergeSort fun a b => a.1 ≤ b.1).Perm parts := List.mergeSort_perm _ _
  have hne : (parts.mergeSort fun a b => a.1 ≤ b.1).Pairwise fun a b => a.1 ≠ b.1 :=
    List.pairwise_map.1 ((hperm.map Prod.fst).nodup_iff.2 h)
  refine (hle.and hne).imp ?_
  intro a b hab
  exact Std.lt_of_le_of_ne (of_decide_eq_true hab.1) hab.2

/-- Siblings stand in one strictly ascending order only. -/
theorem eq_of_ascending_names {l l' : List (String × List α)} (hperm : l.Perm l')
    (h : l.Pairwise fun a b => a.1 < b.1) (h' : l'.Pairwise fun a b => a.1 < b.1) : l = l' :=
  hperm.eq_of_pairwise (fun _ _ _ _ hab hba => absurd hba (String.lt_asymm hab)) h h'

/-- What is made of siblings does not depend on the order in which they are given. -/
theorem joinByName_perm {parts parts' : List (String × List α)} (hperm : parts.Perm parts')
    (h : (parts.map Prod.fst).Nodup) : joinByName parts = joinByName parts' := by
  have h' : (parts'.map Prod.fst).Nodup := (hperm.map Prod.fst).nodup_iff.1 h
  have hsorted : (parts.mergeSort fun a b => a.1 ≤ b.1).Perm
      (parts'.mergeSort fun a b => a.1 ≤ b.1) :=
    (List.mergeSort_perm _ _).trans (hperm.trans (List.mergeSort_perm _ _).symm)
  unfold joinByName
  rw [eq_of_ascending_names hsorted (pairwise_mergeSort_names h) (pairwise_mergeSort_names h')]

theorem joinByName_pairwise {R : α → α → Prop} {parts : List (String × List α)}
    (hnames : (parts.map Prod.fst).Nodup) (hwithin : ∀ a ∈ parts, a.2.Pairwise R)
    (hacross : ∀ a ∈ parts, ∀ b ∈ parts, a.1 < b.1 → ∀ x ∈ a.2, ∀ y ∈ b.2, R x y) :
    (joinByName parts).Pairwise R := by
  unfold joinByName
  rw [List.pairwise_flatMap]
  constructor
  · intro a ha
    exact hwithin a (List.mem_mergeSort.1 ha)
  · apply (pairwise_mergeSort_names hnames).imp_of_mem
    intro a b ha hb hlt
    exact hacross a (List.mem_mergeSort.1 ha) b (List.mem_mergeSort.1 hb) hlt

/-- Related parts with the same names are related after they have been joined. -/
theorem joinByName_related {R : List α → List β → Prop} (nil : R [] [])
    (append : ∀ {xs ys xs' ys'}, R xs ys → R xs' ys' → R (xs ++ xs') (ys ++ ys'))
    {parts : List (String × List α × List β)} (h : ∀ part ∈ parts, R part.2.1 part.2.2) :
    R (joinByName (parts.map fun part => (part.1, part.2.1)))
      (joinByName (parts.map fun part => (part.1, part.2.2))) := by
  have hflat : ∀ l : List (String × List α × List β), (∀ part ∈ l, R part.2.1 part.2.2) →
      R ((l.map fun part => (part.1, part.2.1)).flatMap Prod.snd)
        ((l.map fun part => (part.1, part.2.2)).flatMap Prod.snd) := by
    intro l hl
    induction l with
    | nil => exact nil
    | cons part l ih =>
      obtain ⟨hpart, hl⟩ := List.forall_mem_cons.1 hl
      exact append hpart (ih hl)
  unfold joinByName
  rw [← List.map_mergeSort (r := fun a b : String × List α × List β => a.1 ≤ b.1),
    ← List.map_mergeSort (r := fun a b : String × List α × List β => a.1 ≤ b.1)]
  · apply hflat
    intro part hpart
    exact h part (List.mem_mergeSort.1 hpart)
  · intro a _ b _
    rfl
  · intro a _ b _
    rfl

/-- Of siblings with different names, those of which nothing is made do not matter. -/
theorem joinByName_filter {parts : List (String × List α)} (h : (parts.map Prod.fst).Nodup) :
    joinByName (parts.filter fun part => !part.2.isEmpty) = joinByName parts := by
  have hsub : ((parts.filter fun part => !part.2.isEmpty).map Prod.fst).Nodup :=
    h.sublist (List.filter_sublist.map Prod.fst)
  have hsorted := pairwise_mergeSort_names hsub
  have hsorted' := (pairwise_mergeSort_names h).filter fun part => !part.2.isEmpty
  have hperm := (List.mergeSort_perm (parts.filter fun part => !part.2.isEmpty)
    fun a b => a.1 ≤ b.1).trans
      ((List.mergeSort_perm parts fun a b => a.1 ≤ b.1).filter fun part => !part.2.isEmpty).symm
  unfold joinByName
  rw [eq_of_ascending_names hperm hsorted hsorted']
  generalize parts.mergeSort (fun a b => a.1 ≤ b.1) = sorted
  induction sorted with
  | nil => rfl
  | cons part sorted ih =>
    rw [List.filter_cons]
    cases hpart : part.2 with
    | nil => simpa [hpart] using ih
    | cons x xs => simp [hpart, ih]

theorem joinByName_eq_nil_iff {parts : List (String × List α)} :
    joinByName parts = [] ↔ (parts.filter fun part => !part.2.isEmpty) = [] := by
  rw [List.filter_eq_nil_iff, List.eq_nil_iff_forall_not_mem]
  simp only [mem_joinByName, not_exists, not_and]
  constructor
  · intro h part hpart
    have hnil : part.2 = [] := List.eq_nil_iff_forall_not_mem.2 fun x hx => h x part hpart hx
    simp [hnil]
  · intro h x part hpart hx
    have hnil := h part hpart
    simp only [Bool.not_eq_true, Bool.not_eq_false', List.isEmpty_iff] at hnil
    rw [hnil] at hx
    cases hx

end

/-! ## Readings -/

/-- What is made of the fields of an outline. -/
structure Reading (α : Type) where
  /-- Of a field that is compared as a whole. -/
  whole : FieldPath → TypeKind → List α
  /-- Of a struct, given what is made of its members. -/
  struct : FieldPath → List α → List α

/-- What is made of a field that nests others, given what is made of these. -/
def Reading.nested {α : Type} (r : Reading α) (nesting : Nesting) (path : FieldPath)
    (members : List α) : List α :=
  match nesting with
  | .struct => r.struct path members
  | .list => r.whole path .listOfStruct
  | .map => r.whole path .mapOfStruct

/-- Something is made of every field but a struct of whose members nothing is made. -/
structure Reading.IsFaithful {α : Type} (r : Reading α) : Prop where
  whole_ne_nil : ∀ (path : FieldPath) {kind : TypeKind}, kind ≠ .nestedStruct →
    r.whole path kind ≠ []
  struct_eq_nil_iff : ∀ (path : FieldPath) {members : List α},
    r.struct path members = [] ↔ members = []

theorem LeafType.kind_ne (type : LeafType) : type.kind ≠ .nestedStruct := by
  cases type <;> intro h <;> cases h

namespace Outline

/-- What is made of each field that stands in a scope, by name; of an ignored field, nothing. -/
def parts {α : Type} (r : Reading α) (ignored : FieldPath → Bool) :
    Scope → Outline → List (String × List α)
  | _, .done => []
  | scope, .leaf name type rest =>
    let path := scope.extend name
    (name.text, if ignored path then [] else r.whole path type.kind) :: rest.parts r ignored scope
  | scope, .nested name nesting members rest =>
    let path := scope.extend name
    let part := r.nested nesting path (joinByName (members.parts r ignored (nesting.scope path)))
    (name.text, if ignored path then [] else part) :: rest.parts r ignored scope

/-- What is made of the fields that stand in a scope. -/
def read {α : Type} (r : Reading α) (ignored : FieldPath → Bool) (scope : Scope) (os : Outline) :
    List α :=
  joinByName (os.parts r ignored scope)

variable {α β : Type} {r : Reading α} {r' : Reading β} {ignored : FieldPath → Bool}
  {flags : FieldPath → Option FieldFlags}

theorem parts_names : ∀ {scope : Scope} {os : Outline},
    (os.parts r ignored scope).map Prod.fst = os.names.map FieldName.text
  | _, .done => rfl
  | _, .leaf _ _ _ => by
    simp only [parts, names, List.map_cons, parts_names]
  | _, .nested _ _ _ _ => by
    simp only [parts, names, List.map_cons, parts_names]

theorem IsProper.parts_names_nodup {scope : Scope} {os : Outline} (h : os.IsProper) :
    ((os.parts r ignored scope).map Prod.fst).Nodup := by
  rw [parts_names]
  exact h.names_nodup.map fun _ _ he => FieldName.ext_text he

theorem parts_eq_nil_iff {scope : Scope} {os : Outline} :
    os.parts r ignored scope = [] ↔ os = .done := by
  cases os <;> simp [parts]

/-- Which paths are ignored matters only for those of fields. -/
theorem parts_congr {ignored' : FieldPath → Bool} : ∀ {scope : Scope} {os : Outline},
    (∀ p ∈ os.paths scope, ignored' p = ignored p) →
      os.parts r ignored' scope = os.parts r ignored scope
  | _, .done, _ => rfl
  | scope, .leaf name type rest, h => by
    obtain ⟨hp, hr⟩ := List.forall_mem_cons.1 h
    simp only [parts, hp, parts_congr hr]
  | scope, .nested name nesting members rest, h => by
    obtain ⟨hp, h⟩ := List.forall_mem_cons.1 h
    obtain ⟨hm, hr⟩ := List.forall_mem_append.1 h
    simp only [parts, hp, parts_congr hm, parts_congr hr]

/-- The parts of two readings, side by side, and each pair of them related. -/
theorem parts_related {R : Scope → List α → List β → Prop} {Known : FieldPath → TypeKind → Prop}
    (nil : ∀ scope, R scope [] [])
    (append : ∀ {scope xs ys xs' ys'}, R scope xs ys → R scope xs' ys' →
      R scope (xs ++ xs') (ys ++ ys'))
    (whole : ∀ {scope : Scope} {n kind}, Known (scope.extend n) kind → kind ≠ .nestedStruct →
      R scope (r.whole (scope.extend n) kind) (r'.whole (scope.extend n) kind))
    (struct : ∀ {scope : Scope} {n xs ys}, Known (scope.extend n) .nestedStruct →
      R (.struct (scope.extend n)) xs ys →
      R scope (r.struct (scope.extend n) xs) (r'.struct (scope.extend n) ys)) :
    ∀ {scope : Scope} {id : Nat} {os : Outline},
      (∀ f ∈ os.fields flags scope id, Known f.path f.kind) →
      ∃ both : List (String × List α × List β),
        both.map (fun part => (part.1, part.2.1)) = os.parts r ignored scope ∧
        both.map (fun part => (part.1, part.2.2)) = os.parts r' ignored scope ∧
        ∀ part ∈ both, R scope part.2.1 part.2.2
  | _, _, .done, _ => ⟨[], rfl, rfl, fun _ h => absurd h List.not_mem_nil⟩
  | scope, id, .leaf name type rest, hknown => by
    obtain ⟨hf, hrest⟩ := List.forall_mem_cons.1 hknown
    obtain ⟨both, hleft, hright, hboth⟩ := parts_related nil append whole struct hrest
    have hpart : R scope
        (if ignored (scope.extend name) then [] else r.whole (scope.extend name) type.kind)
        (if ignored (scope.extend name) then [] else r'.whole (scope.extend name) type.kind) := by
      split
      · exact nil scope
      · exact whole hf type.kind_ne
    exact ⟨(name.text, _, _) :: both, congrArg _ hleft, congrArg _ hright,
      List.forall_mem_cons.2 ⟨hpart, hboth⟩⟩
  | scope, id, .nested name nesting members rest, hknown => by
    obtain ⟨hf, hknown⟩ := List.forall_mem_cons.1 hknown
    obtain ⟨hmembers, hrest⟩ := List.forall_mem_append.1 hknown
    rw [Nesting.field_path, Nesting.field_kind] at hf
    obtain ⟨below, hl, hr, hbelow⟩ := parts_related nil append whole struct hmembers
    obtain ⟨both, hleft, hright, hboth⟩ := parts_related nil append whole struct hrest
    have hjoined := joinByName_related (nil _) append hbelow
    rw [hl, hr] at hjoined
    have hpart : R scope
        (r.nested nesting (scope.extend name)
          (joinByName (members.parts r ignored (nesting.scope (scope.extend name)))))
        (r'.nested nesting (scope.extend name)
          (joinByName (members.parts r' ignored (nesting.scope (scope.extend name))))) := by
      cases nesting with
      | struct => exact struct hf hjoined
      | list => exact whole hf (by intro h; cases h)
      | map => exact whole hf (by intro h; cases h)
    refine ⟨(name.text, _, _) :: both, congrArg _ hleft, congrArg _ hright,
      List.forall_mem_cons.2 ⟨?_, hboth⟩⟩
    show R scope (if ignored (scope.extend name) then [] else _)
      (if ignored (scope.extend name) then [] else _)
    split
    · exact nil scope
    · exact hpart

/-- **Two readings of one outline are related if what they make of each field is.** -/
theorem read_related (R : Scope → List α → List β → Prop) (Known : FieldPath → TypeKind → Prop)
    (nil : ∀ scope, R scope [] [])
    (append : ∀ {scope xs ys xs' ys'}, R scope xs ys → R scope xs' ys' →
      R scope (xs ++ xs') (ys ++ ys'))
    (whole : ∀ {scope : Scope} {n kind}, Known (scope.extend n) kind → kind ≠ .nestedStruct →
      R scope (r.whole (scope.extend n) kind) (r'.whole (scope.extend n) kind))
    (struct : ∀ {scope : Scope} {n xs ys}, Known (scope.extend n) .nestedStruct →
      R (.struct (scope.extend n)) xs ys →
      R scope (r.struct (scope.extend n) xs) (r'.struct (scope.extend n) ys))
    {scope : Scope} {id : Nat} {os : Outline}
    (hknown : ∀ f ∈ os.fields flags scope id, Known f.path f.kind) :
    R scope (os.read r ignored scope) (os.read r' ignored scope) := by
  obtain ⟨both, hleft, hright, hboth⟩ : ∃ both : List (String × List α × List β),
      both.map (fun part => (part.1, part.2.1)) = os.parts r ignored scope ∧
      both.map (fun part => (part.1, part.2.2)) = os.parts r' ignored scope ∧
      ∀ part ∈ both, R scope part.2.1 part.2.2 := parts_related nil append whole struct hknown
  unfold read
  rw [← hleft, ← hright]
  exact joinByName_related (nil scope) append hboth

/-- What holds of nothing, of what is made of each field, and of lists put together holds of what
is made of an outline. -/
theorem read_induction {P : List α → Prop} (nil : P [])
    (append : ∀ {xs ys}, P xs → P ys → P (xs ++ ys))
    (whole : ∀ (path : FieldPath) {kind : TypeKind}, kind ≠ .nestedStruct → P (r.whole path kind))
    (struct : ∀ (path : FieldPath) {members : List α}, P members → P (r.struct path members))
    {scope : Scope} {os : Outline} : P (os.read r ignored scope) := by
  have hknown : ∀ f ∈ os.fields (fun _ => none) scope 0, True := fun _ _ => trivial
  have hboth : P (os.read r ignored scope) ∧ P (os.read r ignored scope) :=
    read_related (fun _ xs ys => P xs ∧ P ys) (fun _ _ => True) (fun _ => ⟨nil, nil⟩)
      (fun h h' => ⟨append h.1 h'.1, append h.2 h'.2⟩) (fun _ h => ⟨whole _ h, whole _ h⟩)
      (fun _ h => ⟨struct _ h.1, struct _ h.2⟩) hknown
  exact hboth.1

end Outline

end ResourceDelta
