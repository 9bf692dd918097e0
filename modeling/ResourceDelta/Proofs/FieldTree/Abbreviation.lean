import ResourceDelta.Proofs.Comparison.Deletion
import ResourceDelta.Proofs.FieldTree.Acceptance

/-!
# Shapes are abbreviations

The shapes that definitions name stand for their members, and for nothing else: with all of them
replaced, the same tree is built, field by field and number by number.  That they can all be
replaced is not plain from the definitions, as shapes name shapes.

* `Expands.not_mentions` — definitions in which the shapes are replaced name none.
* `build_expanded` — they make the tree that was made with the shapes, and so does every table in
  which the shapes that are reached are the same.
-/

set_option autoImplicit false

namespace ResourceDelta

namespace Expands

variable {shapes table : ShapeTable} {definitions expanded inner : List FieldDefinition}

/-- A definition among replaced ones names no shape, and what it nests has been replaced too. -/
theorem of_mem {d : FieldDefinition} (h : Expands shapes definitions expanded)
    (hd : d ∈ expanded) : d.shape? = none ∧
      ∀ inner, Nests table d inner → ∃ listed, Expands shapes listed inner := by
  induction h with
  | done => cases hd
  | leaf _ ih =>
    rcases List.mem_cons.1 hd with rfl | hd
    · exact ⟨rfl, fun inner hn => by cases hn⟩
    · exact ih hd
  | inPlace below _ _ ih =>
    rcases List.mem_cons.1 hd with rfl | hd
    · refine ⟨rfl, fun inner hn => ?_⟩
      cases hn
      exact ⟨_, below⟩
    · exact ih hd
  | byShape _ below _ _ ih =>
    rcases List.mem_cons.1 hd with rfl | hd
    · refine ⟨rfl, fun inner hn => ?_⟩
      cases hn
      exact ⟨_, below⟩
    · exact ih hd

theorem of_reachable (h : Expands shapes definitions expanded)
    (hr : Reachable table expanded inner) : ∃ listed, Expands shapes listed inner := by
  induction hr with
  | top => exact ⟨definitions, h⟩
  | step _ mem nests ih =>
    obtain ⟨listed, hlisted⟩ := ih
    exact (hlisted.of_mem mem).2 _ nests

/-- **Definitions in which the shapes are replaced name none**, at any depth. -/
theorem not_mentions {s : String} (h : Expands shapes definitions expanded) :
    ¬ Mentions table expanded s := by
  rintro ⟨inner, hr, d, hd, hs⟩
  obtain ⟨listed, hlisted⟩ := h.of_reachable hr
  have hnone : d.shape? = none ∧ ∀ inner, Nests table d inner → ∃ ds, Expands shapes ds inner :=
    hlisted.of_mem hd
  rw [hnone.1] at hs
  cases hs

end Expands

/-- **Shapes are abbreviations.**  Where a tree is built, the shapes can be replaced by their
members throughout, in one way.  No shapes are named then, and the same tree is built, whatever
shapes there are.  Of the shapes themselves only those matter that are reached. -/
theorem build_expanded {shapes : ShapeTable} {definitions : List FieldDefinition} {t : FieldTree}
    (h : FieldTree.build shapes definitions = .ok t) :
    (∃ expanded, (∀ ds, Expands shapes definitions ds ↔ ds = expanded) ∧
      ∀ table : ShapeTable, (∀ s, ¬ Mentions table expanded s) ∧
        FieldTree.build table expanded = .ok t) ∧
      ∀ shapes' : ShapeTable,
        (∀ s, Mentions shapes definitions s → shapes'.find? s = shapes.find? s) →
          FieldTree.build shapes' definitions = .ok t := by
  obtain ⟨os, hd, hp, rfl⟩ := FieldTree.build_eq_ok_iff.1 h
  refine ⟨⟨os.definitions, fun ds => ?_, fun table => ⟨fun s => ?_, ?_⟩⟩, fun shapes' hagree => ?_⟩
  · constructor
    · exact fun hds => hds.unique hd.expands
    · rintro rfl
      exact hd.expands
  · exact hd.expands.not_mentions
  · exact FieldTree.build_eq_ok_iff.2 ⟨os, hp.describes, hp, rfl⟩
  · exact FieldTree.build_eq_ok_iff.2 ⟨os, (describes_iff_of_agree hagree).2 hd, hp, rfl⟩

/-- The shapes of the sample and two that name each other. -/
def loopingShapes : ShapeTable :=
  Table.insert (Table.insert storeDefinition.shapes "Odd" [.shapeRef "next" "Even"])
    "Even" [.shapeRef "next" "Odd"]

/-- The sample makes the same tree with its endpoints in place, and with shapes beside them that
could not be replaced. -/
theorem build_expanded_store : ∃ t,
    FieldTree.build storeDefinition.shapes storeDefinition.spec = .ok t ∧
    FieldTree.build .empty storeInPlace = .ok t ∧
    FieldTree.build loopingShapes storeDefinition.spec = .ok t := by
  cases h : FieldTree.build storeDefinition.shapes storeDefinition.spec with
  | error e =>
    have hok : (FieldTree.build storeDefinition.shapes storeDefinition.spec).isOk = true := by cbv
    rw [h] at hok
    cases hok
  | ok t =>
    obtain ⟨⟨expanded, hunique, hall⟩, hagree⟩ := build_expanded h
    obtain rfl := (hunique storeInPlace).1 storeDefinition_expands
    refine ⟨t, rfl, (hall .empty).2, hagree loopingShapes fun s hs => ?_⟩
    -- the shapes that are reached are found, and the new ones are not
    obtain ⟨os, hd, -⟩ := FieldTree.build_eq_ok_iff.1 h
    obtain ⟨listed, -, hfound, -⟩ := hd.of_shape hs
    have hodd : storeDefinition.shapes.find? "Odd" = none := by cbv
    have heven : storeDefinition.shapes.find? "Even" = none := by cbv
    unfold loopingShapes
    rw [Table.find?_insert, Table.find?_insert, if_neg, if_neg]
    · rintro rfl
      rw [hodd] at hfound
      cases hfound
    · rintro rfl
      rw [heven] at hfound
      cases hfound

end ResourceDelta
