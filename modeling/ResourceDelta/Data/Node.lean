import ResourceDelta.Data.Value

/-!
# Document nodes

A node is a piece of a document as it was written, before anyone has asked for a type.  The same
scalar can be read in several ways: `5` is a text where a text is wanted, and otherwise a number.

Nodes are read where the reader knows what it wants: `Node.text?`, `Node.items?`, `Node.entries?`
and `Node.fields`.  `Node.value?` reads a whole node as a typed value.
-/

set_option autoImplicit false

namespace ResourceDelta

/-- The ways in which a scalar can be read. -/
structure Scalar where
  /-- What it is as a text, if it can be one. -/
  written : Option String
  /-- Whether it can stand for an empty list or map. -/
  blank : Bool
  /-- What it is as a typed value, if it can be one. -/
  value : Option Value

/-- A piece of a document. -/
inductive Node where
  | scalar (s : Scalar)
  /-- A list; `plain` if it may become a typed value. -/
  | list (plain : Bool) (items : List Node)
  /-- A map; `plain` if it may become a typed value. -/
  | map (plain : Bool) (entries : List (Node × Node))
  /-- A node that is written elsewhere in the document. -/
  | alias (target : Node)
  /-- A node behind more aliases than have been followed, of which nothing is known. -/
  | unfollowed

namespace Node

mutual

/-- A node as a typed value. -/
def value? : Node → Option Value
  | .scalar s => s.value
  | .list plain items => if plain then (values? items).map .list else none
  | .map plain entries => if plain then (entryValues? entries).map .map else none
  | .alias target => target.value?
  | .unfollowed => none

/-- Nodes as typed values. -/
def values? : List Node → Option (List Value)
  | [] => some []
  | item :: items => do
    let item ← item.value?
    let items ← values? items
    return item :: items

/-- The entries of a map as typed values. -/
def entryValues? : List (Node × Node) → Option (List (Value × Value))
  | [] => some []
  | (key, value) :: entries => do
    let key ← key.value?
    let value ← value.value?
    let entries ← entryValues? entries
    return (key, value) :: entries

end

/-- A node as a text. -/
def text? : Node → Option String
  | .scalar s => s.written
  | .alias target => target.text?
  | _ => none

/-- The items of a node read as a list. -/
def items? : Node → Option (List Node)
  | .scalar s => if s.blank then some [] else none
  | .list _ items => some items
  | .alias target => target.items?
  | _ => none

/-- The entries of a node read as a map. -/
def entries? : Node → Option (List (Node × Node))
  | .scalar s => if s.blank then some [] else none
  | .map _ entries => some entries
  | .alias target => target.entries?
  | _ => none

/-- The entries of a node read as a map whose keys are texts. -/
def textEntries? (n : Node) : Option (List (String × Node)) := do
  let entries ← n.entries?
  entries.mapM fun (key, value) => do
    let key ← key.text?
    return (key, value)

/-- The value of the only entry with a name; `none` if several have it. -/
def only? (name : String) (entries : List (String × Node)) : Option (Option Node) :=
  match entries.filter fun e => e.1 = name with
  | [] => some none
  | [(_, v)] => some (some v)
  | _ => none

/-- The values that a node read as a record gives for named fields, `none` for a field that it
leaves out. -/
def fields (names : List String) (n : Node) : Option (List (Option Node)) := do
  let entries ← n.textEntries?
  names.mapM (only? · entries)

/-- The items of a list that may be left out. -/
def itemsOrNone (n : Option Node) : Option (List Node) :=
  match n with
  | none => some []
  | some n => n.items?

/-- The entries of a map that may be left out. -/
def textEntriesOrNone (n : Option Node) : Option (List (String × Node)) :=
  match n with
  | none => some []
  | some n => n.textEntries?

mutual

/-- A node that can be read as a typed value and, as far as its type allows, as nothing else; only
`null` can also stand for an empty list or map. -/
def ofValue : Value → Node
  | .list items => .list true (ofValues items)
  | .map entries => .map true (ofEntries entries)
  | .text s => .scalar ⟨some s, false, some (.text s)⟩
  | .null => .scalar ⟨none, true, some .null⟩
  | .bool b => .scalar ⟨none, false, some (.bool b)⟩
  | .int n => .scalar ⟨none, false, some (.int n)⟩
  | .real written => .scalar ⟨none, false, some (.real written)⟩

/-- The nodes of some values. -/
def ofValues : List Value → List Node
  | [] => []
  | item :: items => ofValue item :: ofValues items

/-- The nodes of the entries of a map. -/
def ofEntries : List (Value × Value) → List (Node × Node)
  | [] => []
  | (key, value) :: entries => (ofValue key, ofValue value) :: ofEntries entries

end

end Node

end ResourceDelta
