import ResourceDelta.Proofs.Schema.Outline

/-!
# Definitions in another order

The members of a list of definitions, and of all lists below them, may stand in any order.  What
they describe then is rearranged in the same way, through the shapes too, whose members may be
rearranged by themselves.

* `Rearranged` — two lists of definitions have the same members, in any order at any depth.
* `Outline.Rearranged` — so do two outlines.
* `Describes.rearranged`, `Describes.rearranged_shapes` — what describes an outline describes a
  rearranged one after its members or those of shapes have been rearranged.
* `Outline.Rearranged.isProper` — a rearranged outline is proper if the outline is.
-/

set_option autoImplicit false

namespace ResourceDelta

/-! ## Definitions -/

/-- Two lists of definitions have the same members, and so have all lists below them, each in any
order. -/
inductive Rearranged : List FieldDefinition → List FieldDefinition → Prop
  | done : Rearranged [] []
  | leaf {name : String} {type : LeafType} {ds ds' : List FieldDefinition}
      (tail : Rearranged ds ds') : Rearranged (.leaf name type :: ds) (.leaf name type :: ds')
  | nested {name : String} {nesting : Nesting} {shape : Option String}
      {own own' ds ds' : List FieldDefinition} (below : Rearranged own own')
      (tail : Rearranged ds ds') :
      Rearranged (.nested name nesting own shape :: ds) (.nested name nesting own' shape :: ds')
  | swap {d e : FieldDefinition} {ds : List FieldDefinition} :
      Rearranged (d :: e :: ds) (e :: d :: ds)
  | trans {ds ds' ds'' : List FieldDefinition} (first : Rearranged ds ds')
      (second : Rearranged ds' ds'') : Rearranged ds ds''

/-- Two tables have the same shapes, with rearranged members. -/
def ShapeTable.Rearranged (shapes shapes' : ShapeTable) : Prop :=
  ∀ s, Option.Rel ResourceDelta.Rearranged (shapes.find? s) (shapes'.find? s)

namespace Rearranged

variable {ds ds' : List FieldDefinition}

theorem refl : ∀ ds : List FieldDefinition, Rearranged ds ds
  | [] => .done
  | .leaf _ _ :: ds => .leaf (refl ds)
  | .nested _ _ own _ :: ds => .nested (refl own) (refl ds)

theorem symm (h : Rearranged ds ds') : Rearranged ds' ds := by
  induction h with
  | done => exact .done
  | leaf _ ih => exact .leaf ih
  | nested _ _ ihb iht => exact .nested ihb iht
  | swap => exact .swap
  | trans _ _ ih ih' => exact .trans ih' ih

theorem cons (d : FieldDefinition) (h : Rearranged ds ds') : Rearranged (d :: ds) (d :: ds') := by
  cases d with
  | leaf name type => exact .leaf h
  | nested name nesting own shape => exact .nested (refl own) h

/-- A permutation rearranges a list. -/
theorem of_perm (h : ds.Perm ds') : Rearranged ds ds' := by
  induction h with
  | nil => exact .done
  | cons d _ ih => exact ih.cons d
  | swap => exact .swap
  | trans _ _ ih ih' => exact .trans ih ih'

theorem length_eq (h : Rearranged ds ds') : ds.length = ds'.length := by
  induction h with
  | done => rfl
  | leaf _ ih => rw [List.length_cons, List.length_cons, ih]
  | nested _ _ _ ih => rw [List.length_cons, List.length_cons, ih]
  | swap => rfl
  | trans _ _ ih ih' => exact ih.trans ih'

theorem ne_nil (h : Rearranged ds ds') (hne : ds ≠ []) : ds' ≠ [] := by
  rintro rfl
  exact hne (List.eq_nil_of_length_eq_zero h.length_eq)

theorem eq_nil (h : Rearranged [] ds) : ds = [] :=
  List.eq_nil_of_length_eq_zero h.length_eq.symm

end Rearranged

namespace ShapeTable.Rearranged

variable {shapes shapes' : ShapeTable}

theorem refl (shapes : ShapeTable) : shapes.Rearranged shapes := by
  intro s
  cases shapes.find? s with
  | none => exact .none
  | some listed => exact .some (.refl listed)

theorem symm (h : shapes.Rearranged shapes') : shapes'.Rearranged shapes := by
  intro s
  have hs := h s
  revert hs
  generalize shapes.find? s = listed
  generalize shapes'.find? s = listed'
  rintro (hr | -)
  · exact .some hr.symm
  · exact .none

theorem insert {ms ms' : List FieldDefinition} (h : shapes.Rearranged shapes') (name : String)
    (hr : ResourceDelta.Rearranged ms ms') :
    ShapeTable.Rearranged (Table.insert shapes name ms) (Table.insert shapes' name ms') := by
  intro s
  rw [Table.find?_insert, Table.find?_insert]
  split
  · exact .some hr
  · exact h s

end ShapeTable.Rearranged

/-! ## Outlines -/

namespace Outline

/-- A field of an outline, with all that is below it. -/
inductive Item where
  | leaf (name : FieldName) (type : LeafType)
  | nested (name : FieldName) (nesting : Nesting) (members : Outline)

/-- The outline that starts with a field. -/
def Item.before : Item → Outline → Outline
  | .leaf name type, rest => .leaf name type rest
  | .nested name nesting members, rest => .nested name nesting members rest

def Item.name : Item → FieldName
  | .leaf name _ => name
  | .nested name _ _ => name

/-- A field that nests others has some. -/
def Item.IsProper : Item → Prop
  | .leaf _ _ => True
  | .nested _ _ members => members ≠ .done ∧ members.IsProper

@[simp] theorem names_before (a : Item) (rest : Outline) :
    (a.before rest).names = a.name :: rest.names := by
  cases a <;> rfl

@[simp] theorem isProper_before_iff {a : Item} {rest : Outline} :
    (a.before rest).IsProper ↔ a.name ∉ rest.names ∧ a.IsProper ∧ rest.IsProper := by
  cases a with
  | leaf name type => simp [Item.before, IsProper, Item.name, Item.IsProper]
  | nested name nesting members =>
    simp [Item.before, IsProper, Item.name, Item.IsProper, and_assoc]

/-- Two outlines have the same fields, and so have all outlines below them, each in any order. -/
inductive Rearranged : Outline → Outline → Prop
  | done : Rearranged .done .done
  | leaf {name : FieldName} {type : LeafType} {rest rest' : Outline}
      (tail : Rearranged rest rest') : Rearranged (.leaf name type rest) (.leaf name type rest')
  | nested {name : FieldName} {nesting : Nesting} {members members' rest rest' : Outline}
      (below : Rearranged members members') (tail : Rearranged rest rest') :
      Rearranged (.nested name nesting members rest) (.nested name nesting members' rest')
  | swap {a b : Item} {rest : Outline} :
      Rearranged (a.before (b.before rest)) (b.before (a.before rest))
  | trans {os os' os'' : Outline} (first : Rearranged os os') (second : Rearranged os' os'') :
      Rearranged os os''

namespace Rearranged

variable {os os' : Outline}

theorem refl : ∀ os : Outline, Rearranged os os
  | .done => .done
  | .leaf _ _ rest => .leaf (refl rest)
  | .nested _ _ members rest => .nested (refl members) (refl rest)

theorem names_perm (h : os.Rearranged os') : os.names.Perm os'.names := by
  induction h with
  | done => exact .nil
  | leaf _ ih => exact ih.cons _
  | nested _ _ _ ih => exact ih.cons _
  | swap =>
    simp only [names_before]
    exact .swap _ _ _
  | trans _ _ ih ih' => exact ih.trans ih'

theorem ne_done (h : os.Rearranged os') (hne : os ≠ .done) : os' ≠ .done := by
  rintro rfl
  have hnames := h.names_perm.eq_nil
  cases os with
  | done => exact hne rfl
  | leaf => cases hnames
  | nested => cases hnames

/-- **A rearranged outline is proper if the outline is.** -/
theorem isProper (h : os.Rearranged os') (hp : os.IsProper) : os'.IsProper := by
  induction h with
  | done => trivial
  | leaf tail ih => exact ⟨fun hn => hp.1 (tail.names_perm.mem_iff.2 hn), ih hp.2⟩
  | nested below tail ihb iht =>
    exact ⟨fun hn => hp.1 (tail.names_perm.mem_iff.2 hn), below.ne_done hp.2.1, ihb hp.2.2.1,
      iht hp.2.2.2⟩
  | swap =>
    simp only [isProper_before_iff, names_before, List.mem_cons, not_or] at hp ⊢
    obtain ⟨⟨hne, ha⟩, hap, hb, hbp, hrest⟩ := hp
    exact ⟨⟨Ne.symm hne, hb⟩, hbp, ha, hap, hrest⟩
  | trans _ _ ih ih' => exact ih' (ih hp)

end Rearranged

end Outline

/-! ## What rearranged definitions describe -/

namespace Describes

variable {shapes shapes' : ShapeTable} {ds ds' : List FieldDefinition} {d : FieldDefinition}
  {os : Outline}

/-- A list describes an outline that starts with what its first definition describes. -/
theorem cons_iff : Describes shapes (d :: ds) os ↔ ∃ (a : Outline.Item) (rest : Outline),
    os = a.before rest ∧ Describes shapes [d] (a.before .done) ∧ Describes shapes ds rest := by
  constructor
  · intro h
    cases h with
    | @leaf name type _ rest isName tail =>
      exact ⟨.leaf ⟨name, isName⟩ type, rest, rfl, .leaf isName .done, tail⟩
    | @inPlace name nesting _ _ members rest isName nonempty below tail =>
      exact ⟨.nested ⟨name, isName⟩ nesting members, rest, rfl,
        .inPlace isName nonempty below .done, tail⟩
    | @byShape name _ nesting _ _ members rest isName found nonempty below tail =>
      exact ⟨.nested ⟨name, isName⟩ nesting members, rest, rfl,
        .byShape isName found nonempty below .done, tail⟩
  · rintro ⟨a, rest, rfl, hd, tail⟩
    cases a with
    | leaf name type =>
      cases hd with
      | leaf isName => exact .leaf isName tail
    | nested name nesting members =>
      cases hd with
      | inPlace isName nonempty below => exact .inPlace isName nonempty below tail
      | byShape isName found nonempty below => exact .byShape isName found nonempty below tail

/-- **Rearranged definitions describe a rearranged outline.** -/
theorem rearranged (h : Describes shapes ds os) (hr : Rearranged ds ds') :
    ∃ os', Describes shapes ds' os' ∧ os.Rearranged os' := by
  induction hr generalizing os with
  | done => exact ⟨os, h, .refl os⟩
  | leaf _ ih =>
    cases h with
    | leaf isName tail =>
      obtain ⟨rest', hrest, hr⟩ := ih tail
      exact ⟨_, .leaf isName hrest, .leaf hr⟩
  | nested below _ ihb iht =>
    cases h with
    | inPlace isName nonempty hbelow tail =>
      obtain ⟨members', hm, hmr⟩ := ihb hbelow
      obtain ⟨rest', hrest, hr⟩ := iht tail
      exact ⟨_, .inPlace isName (below.ne_nil nonempty) hm hrest, .nested hmr hr⟩
    | byShape isName found nonempty hbelow tail =>
      obtain rfl := below.eq_nil
      obtain ⟨rest', hrest, hr⟩ := iht tail
      exact ⟨_, .byShape isName found nonempty hbelow hrest, .nested (.refl _) hr⟩
  | swap =>
    obtain ⟨a, rest, rfl, ha, h⟩ := cons_iff.1 h
    obtain ⟨b, rest, rfl, hb, h⟩ := cons_iff.1 h
    exact ⟨_, cons_iff.2 ⟨b, _, rfl, hb, cons_iff.2 ⟨a, rest, rfl, ha, h⟩⟩, .swap⟩
  | trans _ _ ih ih' =>
    obtain ⟨os', h', hr⟩ := ih h
    obtain ⟨os'', h'', hr'⟩ := ih' h'
    exact ⟨os'', h'', hr.trans hr'⟩

/-- **Definitions describe a rearranged outline under rearranged shapes.** -/
theorem rearranged_shapes (h : Describes shapes ds os) (ht : shapes.Rearranged shapes') :
    ∃ os', Describes shapes' ds os' ∧ os.Rearranged os' := by
  induction h with
  | done => exact ⟨.done, .done, .done⟩
  | leaf isName _ ih =>
    obtain ⟨rest', hrest, hr⟩ := ih
    exact ⟨_, .leaf isName hrest, .leaf hr⟩
  | inPlace isName nonempty _ _ ihb iht =>
    obtain ⟨members', hm, hmr⟩ := ihb
    obtain ⟨rest', hrest, hr⟩ := iht
    exact ⟨_, .inPlace isName nonempty hm hrest, .nested hmr hr⟩
  | @byShape name shape _ listed _ _ _ isName found nonempty _ _ ihb iht =>
    obtain ⟨members, hm, hmr⟩ := ihb
    obtain ⟨rest', hrest, hr⟩ := iht
    -- the members of the shape are themselves rearranged by the table
    have hs := ht shape
    rw [found] at hs
    generalize hfound : shapes'.find? shape = entry at hs
    cases hs with
    | some hlisted =>
      obtain ⟨members', hm', hmr'⟩ := hm.rearranged hlisted
      exact ⟨_, .byShape isName hfound (hlisted.ne_nil nonempty) hm' hrest,
        .nested (hmr.trans hmr') hr⟩

/-- What a list describes is rearranged when its members and those of all shapes are. -/
theorem rearranged_all (h : Describes shapes ds os) (ht : shapes.Rearranged shapes')
    (hr : Rearranged ds ds') : ∃ os', Describes shapes' ds' os' ∧ os.Rearranged os' := by
  obtain ⟨os', h', hos⟩ := h.rearranged_shapes ht
  obtain ⟨os'', h'', hos'⟩ := h'.rearranged hr
  exact ⟨os'', h'', hos.trans hos'⟩

end Describes

end ResourceDelta
