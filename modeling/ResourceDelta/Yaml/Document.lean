import ResourceDelta.Data.Node
import ResourceDelta.Yaml.ScalarValue
import ResourceDelta.Yaml.Scan
import ResourceDelta.Yaml.Tree

/-!
# YAML documents

`Document.read` reads a text with one document as a node, with aliases followed.

Aliases can make a document far larger than its text, so there are limits for the part of it that
the reader looks at: collections nest no deeper than `maxDepth`, and aliases are followed no more
often than `maxFollowed` times the number of events that it takes to write the document down.
-/

set_option autoImplicit false

namespace ResourceDelta.Yaml

/-! ## Following aliases -/

/-- The label of a node with the node itself, if it has one. -/
def labelled (p : Properties) (t : Tree) : List (Nat × Tree) :=
  (p.anchor.map fun label => (label, t)).toList

mutual

/-- The nodes with a label and their labels, in their order in the text. -/
def Tree.labelled : Tree → List (Nat × Tree)
  | .alias _ => []
  | .scalar p text plain => Yaml.labelled p (.scalar p text plain)
  | .list p items => Yaml.labelled p (.list p items) ++ labelledItems items
  | .map p entries => Yaml.labelled p (.map p entries) ++ labelledEntries entries

/-- The nodes with a label at or below the items of a list. -/
def labelledItems : List Tree → List (Nat × Tree)
  | [] => []
  | item :: items => item.labelled ++ labelledItems items

/-- The nodes with a label at or below the entries of a map. -/
def labelledEntries : List (Tree × Tree) → List (Nat × Tree)
  | [] => []
  | (key, value) :: entries => key.labelled ++ value.labelled ++ labelledEntries entries

end

mutual

/-- The number of events that it takes to write a tree down. -/
def Tree.events : Tree → Nat
  | .alias _ => 1
  | .scalar .. => 1
  | .list _ items => 2 + itemEvents items
  | .map _ entries => 2 + entryEvents entries

/-- The number of events that it takes to write the items of a list down. -/
def itemEvents : List Tree → Nat
  | [] => 0
  | item :: items => item.events + itemEvents items

/-- The number of events that it takes to write the entries of a map down. -/
def entryEvents : List (Tree × Tree) → Nat
  | [] => 0
  | (key, value) :: entries => key.events + value.events + entryEvents entries

end

mutual

/-- The node of a tree; `targets` are the nodes with a label, of which the first one counts. -/
def Tree.node (targets : List (Nat × Node)) : Tree → Node
  | .alias label => .alias ((targets.lookup label).getD .unfollowed)
  | .scalar p text plain =>
    .scalar ⟨some text, text = "" && plain, scalarValue p.tag text plain⟩
  | .list p items => .list (!isPrivateTag p.tag) (itemNodes targets items)
  | .map p entries => .map (!isPrivateTag p.tag) (entryNodes targets entries)

/-- The nodes of the items of a list. -/
def itemNodes (targets : List (Nat × Node)) : List Tree → List Node
  | [] => []
  | item :: items => item.node targets :: itemNodes targets items

/-- The nodes of the entries of a map. -/
def entryNodes (targets : List (Nat × Node)) : List (Tree × Tree) → List (Node × Node)
  | [] => []
  | (key, value) :: entries =>
    (key.node targets, value.node targets) :: entryNodes targets entries

end

/-- The nodes with a label, in which no more than `rounds` aliases in a row have been followed. -/
def targets (labelled : List (Nat × Tree)) : Nat → List (Nat × Node)
  | 0 => []
  | rounds + 1 =>
    let nearer := targets labelled rounds
    labelled.map fun (label, tree) => (label, tree.node nearer)

/-- How deep collections may nest. -/
def maxDepth : Nat := 128

/-- The node of a whole document; of two nodes with the same label the later one counts.  Each alias
leads to a scalar or into one more collection, so no more than `maxDepth` aliases in a row stand
where anyone may look. -/
def Tree.toNode (t : Tree) : Node :=
  t.node (targets t.labelled.reverse maxDepth)

/-! ## Limits -/

/-- How often aliases may be followed for each event. -/
def maxFollowed : Nat := 100

mutual

/-- The number of aliases that may still be followed after a node, given how deep collections may
nest in it and how many aliases may be followed; `none` if it goes beyond that. -/
def spend (depth : Nat) : Node → Nat → Option Nat
  | .scalar _, left => some left
  | .alias target, left => if left = 0 then none else spend depth target (left - 1)
  | .unfollowed, _ => none
  | .list _ items, left => if depth = 0 then none else spendItems (depth - 1) items left
  | .map _ entries, left => if depth = 0 then none else spendEntries (depth - 1) entries left

/-- The number of aliases that may still be followed after the items of a list. -/
def spendItems (depth : Nat) : List Node → Nat → Option Nat
  | [], left => some left
  | item :: items, left => do
    let left ← spend depth item left
    spendItems depth items left

/-- The number of aliases that may still be followed after the entries of a map. -/
def spendEntries (depth : Nat) : List (Node × Node) → Nat → Option Nat
  | [], left => some left
  | (key, value) :: entries, left => do
    let left ← spend depth key left
    let left ← spend depth value left
    spendEntries depth entries left

end

/-- A node that nobody looks at. -/
def unread : Node :=
  .scalar ⟨none, true, none⟩

/-- A map in which only the values are looked at for which `part` says how; each is restricted to
its part. -/
def only (part : String → Option (Node → Node)) : Node → Node
  | .map plain entries =>
    .map plain (entries.map fun (key, value) =>
      (key, ((key.text?.bind part).map (· value)).getD unread))
  | .alias target => .alias (only part target)
  | n => n

/-! ## Reading -/

/-- Reads a text with one document.  `part` restricts a node to the part of it that the reader looks
at.  A text without any document is like one with nothing in it. -/
def Document.read (part : Node → Node) (text : String) : Option Node := do
  let ts ← tokens text
  let tree ← Tree.ofTokens? ts
  match tree with
  | none => return Tree.empty.toNode
  | some tree =>
    let node := tree.toNode
    let _ ← spend maxDepth (part node) (maxFollowed * tree.events)
    return node

end ResourceDelta.Yaml
