import ResourceDelta.Yaml.Token

/-!
# The tree of a YAML document

`Tree.ofTokens?` reads the tokens of a text with one document as a tree; a text without any document
has none.  Anchors and aliases carry numbers there, given by `numberLabels`.
-/

set_option autoImplicit false

namespace ResourceDelta.Yaml

/-- What stands before the content of a node. -/
structure Properties where
  anchor : Option Nat
  tag : Option Text.Octets
  deriving DecidableEq, Repr

/-- A node of a document and all below it. -/
inductive Tree where
  | alias (label : Nat)
  | scalar (properties : Properties) (text : String) (plain : Bool)
  | list (properties : Properties) (items : List Tree)
  | map (properties : Properties) (entries : List (Tree × Tree))

/-- A node with nothing in it. -/
def Tree.empty : Tree :=
  .scalar ⟨none, none⟩ "" true

/-! ## Labels -/

/-- The numbers of the labels that have been given so far. -/
abbrev Labels := List (String × Nat)

/-- Gives a label a number: how many labels there are.  A label given before is given anew. -/
def Labels.give (labels : Labels) (label : String) : Nat × Labels :=
  (labels.length, (label, labels.length) :: labels.filter fun l => l.1 ≠ label)

/-- A token with the number of its label; an alias needs a label that was given before. -/
def numberLabel (labels : Labels) : Token String → Option (Token Nat × Labels)
  | .anchor label =>
    let (number, labels) := labels.give label
    some (.anchor number, labels)
  | .alias label => (labels.lookup label).map fun number => (.alias number, labels)
  | .version major minor => some (.version major minor, labels)
  | .tagHandle handle start => some (.tagHandle handle start, labels)
  | .documentStart => some (.documentStart, labels)
  | .documentEnd => some (.documentEnd, labels)
  | .blockSequenceStart => some (.blockSequenceStart, labels)
  | .blockMappingStart => some (.blockMappingStart, labels)
  | .blockEnd => some (.blockEnd, labels)
  | .flowSequenceStart => some (.flowSequenceStart, labels)
  | .flowSequenceEnd => some (.flowSequenceEnd, labels)
  | .flowMappingStart => some (.flowMappingStart, labels)
  | .flowMappingEnd => some (.flowMappingEnd, labels)
  | .blockEntry => some (.blockEntry, labels)
  | .flowEntry => some (.flowEntry, labels)
  | .key => some (.key, labels)
  | .value => some (.value, labels)
  | .tag handle suffix => some (.tag handle suffix, labels)
  | .scalar text plain => some (.scalar text plain, labels)

/-- Tokens with the numbers of their labels. -/
def numberLabels : Labels → List (Token String) → Option (List (Token Nat))
  | _, [] => some []
  | labels, t :: ts => do
    let (t, labels) ← numberLabel labels t
    let ts ← numberLabels labels ts
    return t :: ts

/-! ## Tags and directives -/

/-- What the handles of tags stand for. -/
abbrev Handles := List (String × Text.Octets)

/-- The handles that need no directive. -/
def Handles.standard : Handles :=
  [("!", Text.octets "!"), ("!!", Text.octets "tag:yaml.org,2002:")]

/-- The tag with a handle and a suffix. -/
def Handles.tag? (handles : Handles) (handle : String) (suffix : Text.Octets) :
    Option Text.Octets :=
  if handle = "" then some suffix else (handles.lookup handle).map (· ++ suffix)

/-- What the directives before a document say. -/
structure Directives where
  hasVersion : Bool
  handles : Handles

/-- Reads directives.  None may be given twice, and the version must be 1.1 or 1.2. -/
def readDirectives (d : Directives) : List (Token Nat) → Option (Directives × List (Token Nat))
  | .version major minor :: ts => do
    guard (!d.hasVersion && major = 1 && (minor = 1 || minor = 2))
    readDirectives { d with hasVersion := true } ts
  | .tagHandle handle start :: ts => do
    guard (d.handles.lookup handle).isNone
    readDirectives { d with handles := d.handles ++ [(handle, start)] } ts
  | ts => some (d, ts)

/-- Reads the anchor and the tag before a node, in either order. -/
def readProperties (handles : Handles) :
    List (Token Nat) → Option (Properties × List (Token Nat))
  | .anchor a :: .tag handle suffix :: ts => do
    let tag ← handles.tag? handle suffix
    return (⟨some a, some tag⟩, ts)
  | .tag handle suffix :: .anchor a :: ts => do
    let tag ← handles.tag? handle suffix
    return (⟨some a, some tag⟩, ts)
  | .anchor a :: ts => some (⟨some a, none⟩, ts)
  | .tag handle suffix :: ts => do
    let tag ← handles.tag? handle suffix
    return (⟨none, some tag⟩, ts)
  | ts => some (⟨none, none⟩, ts)

/-! ## Nodes -/

/-- Where a node stands: what decides which nodes can be empty or lack the marks of a block. -/
inductive Place where
  /-- In a block, where no entry of a sequence may follow directly. -/
  | block
  /-- After a key or the mark of a value, where a sequence need not be indented. -/
  | entry
  /-- In a flow collection. -/
  | flow
  deriving DecidableEq, Repr

mutual

/-- Reads a node. -/
def readNode (handles : Handles) (place : Place) :
    Nat → List (Token Nat) → Option (Tree × List (Token Nat))
  | 0, _ => none
  | _, .alias label :: ts => some (.alias label, ts)
  | bound + 1, ts => do
    let (p, ts) ← readProperties handles ts
    match place, ts with
    | .entry, .blockEntry :: _ =>
      let (items, ts) ← readPlainSequence handles bound ts
      return (.list p items, ts)
    | _, .scalar text plain :: ts => return (.scalar p text plain, ts)
    | _, .flowSequenceStart :: ts =>
      let (items, ts) ← readFlowSequence handles true bound ts
      return (.list p items, ts)
    | _, .flowMappingStart :: ts =>
      let (entries, ts) ← readFlowMapping handles true bound ts
      return (.map p entries, ts)
    | place, ts =>
      match decide (place ≠ .flow), ts with
      | true, .blockSequenceStart :: ts =>
        let (items, ts) ← readBlockSequence handles bound ts
        return (.list p items, ts)
      | true, .blockMappingStart :: ts =>
        let (entries, ts) ← readBlockMapping handles bound ts
        return (.map p entries, ts)
      | _, ts => if p = ⟨none, none⟩ then none else return (.scalar p "" true, ts)

/-- Reads the entries of a block sequence and its end. -/
def readBlockSequence (handles : Handles) :
    Nat → List (Token Nat) → Option (List Tree × List (Token Nat))
  | 0, _ => none
  | bound + 1, .blockEntry :: ts => do
    let (item, ts) ←
      match ts with
      | .blockEntry :: _ => some (.empty, ts)
      | .blockEnd :: _ => some (.empty, ts)
      | _ => readNode handles .block bound ts
    let (items, ts) ← readBlockSequence handles bound ts
    return (item :: items, ts)
  | _, .blockEnd :: ts => some ([], ts)
  | _, _ => none

/-- Reads the entries of a sequence that is not indented. -/
def readPlainSequence (handles : Handles) :
    Nat → List (Token Nat) → Option (List Tree × List (Token Nat))
  | 0, _ => none
  | bound + 1, .blockEntry :: ts => do
    let (item, ts) ←
      match ts with
      | .blockEntry :: _ => some (.empty, ts)
      | .key :: _ => some (.empty, ts)
      | .value :: _ => some (.empty, ts)
      | .blockEnd :: _ => some (.empty, ts)
      | _ => readNode handles .block bound ts
    let (items, ts) ← readPlainSequence handles bound ts
    return (item :: items, ts)
  | _, ts => some ([], ts)

/-- Reads a key or value of a block mapping, which may be empty. -/
def readBlockPart (handles : Handles) :
    Nat → List (Token Nat) → Option (Tree × List (Token Nat))
  | 0, _ => none
  | bound + 1, ts =>
    match ts with
    | .key :: _ => some (.empty, ts)
    | .value :: _ => some (.empty, ts)
    | .blockEnd :: _ => some (.empty, ts)
    | _ => readNode handles .entry bound ts

/-- Reads the entries of a block mapping and its end. -/
def readBlockMapping (handles : Handles) :
    Nat → List (Token Nat) → Option (List (Tree × Tree) × List (Token Nat))
  | 0, _ => none
  | bound + 1, .key :: ts => do
    let (key, ts) ← readBlockPart handles bound ts
    let (value, ts) ←
      match ts with
      | .value :: ts => readBlockPart handles bound ts
      | _ => some (.empty, ts)
    let (entries, ts) ← readBlockMapping handles bound ts
    return ((key, value) :: entries, ts)
  | _, .blockEnd :: ts => some ([], ts)
  | _, _ => none

/-- Reads the entries of a flow sequence and its end; before all but the first there is a mark. -/
def readFlowSequence (handles : Handles) (first : Bool) :
    Nat → List (Token Nat) → Option (List Tree × List (Token Nat))
  | 0, _ => none
  | _, .flowSequenceEnd :: ts => some ([], ts)
  | bound + 1, ts => do
    let ts ←
      match first, ts with
      | true, ts => some ts
      | false, .flowEntry :: ts => some ts
      | false, _ => none
    match ts with
    | .flowSequenceEnd :: ts => return ([], ts)
    | .key :: ts =>
      let (entry, ts) ← readSingleEntry handles bound ts
      let (items, ts) ← readFlowSequence handles false bound ts
      return (.map ⟨none, none⟩ [entry] :: items, ts)
    | ts =>
      let (item, ts) ← readNode handles .flow bound ts
      let (items, ts) ← readFlowSequence handles false bound ts
      return (item :: items, ts)

/-- Reads an entry of a flow sequence that is a mapping with one entry, after the mark of its key.
Where the key is missing, the token in its place is passed over. -/
def readSingleEntry (handles : Handles) :
    Nat → List (Token Nat) → Option ((Tree × Tree) × List (Token Nat))
  | 0, _ => none
  | bound + 1, ts => do
    let (key, ts) ←
      match ts with
      | .value :: ts => some (.empty, ts)
      | .flowEntry :: ts => some (.empty, ts)
      | .flowSequenceEnd :: ts => some (.empty, ts)
      | ts => readNode handles .flow bound ts
    let (value, ts) ←
      match ts with
      | .value :: .flowEntry :: ts => some (.empty, .flowEntry :: ts)
      | .value :: .flowSequenceEnd :: ts => some (.empty, .flowSequenceEnd :: ts)
      | .value :: ts => readNode handles .flow bound ts
      | ts => some (.empty, ts)
    return ((key, value), ts)

/-- Reads the entries of a flow mapping and its end; before all but the first there is a mark. -/
def readFlowMapping (handles : Handles) (first : Bool) :
    Nat → List (Token Nat) → Option (List (Tree × Tree) × List (Token Nat))
  | 0, _ => none
  | _, .flowMappingEnd :: ts => some ([], ts)
  | bound + 1, ts => do
    let ts ←
      match first, ts with
      | true, ts => some ts
      | false, .flowEntry :: ts => some ts
      | false, _ => none
    match ts with
    | .flowMappingEnd :: ts => return ([], ts)
    | .key :: ts =>
      let (key, ts) ←
        match ts with
        | .value :: _ => some (.empty, ts)
        | .flowEntry :: _ => some (.empty, ts)
        | .flowMappingEnd :: _ => some (.empty, ts)
        | _ => readNode handles .flow bound ts
      let (value, ts) ←
        match ts with
        | .value :: .flowEntry :: ts => some (.empty, .flowEntry :: ts)
        | .value :: .flowMappingEnd :: ts => some (.empty, .flowMappingEnd :: ts)
        | .value :: ts => readNode handles .flow bound ts
        | ts => some (.empty, ts)
      let (entries, ts) ← readFlowMapping handles false bound ts
      return ((key, value) :: entries, ts)
    | ts =>
      let (key, ts) ← readNode handles .flow bound ts
      let (entries, ts) ← readFlowMapping handles false bound ts
      return ((key, .empty) :: entries, ts)

end

/-! ## Documents -/

/-- Reads the content of a document, which may be empty. -/
def readContent (handles : Handles) (ts : List (Token Nat)) :
    Option (Tree × List (Token Nat)) :=
  match ts with
  | [] => some (.empty, ts)
  | .version .. :: _ => some (.empty, ts)
  | .tagHandle .. :: _ => some (.empty, ts)
  | .documentStart :: _ => some (.empty, ts)
  | .documentEnd :: _ => some (.empty, ts)
  | _ => readNode handles .block (3 * ts.length + 3) ts

/-- Reads a document; one that does not start with a mark has content and no directives. -/
def readDocument (ts : List (Token Nat)) : Option (Tree × List (Token Nat)) :=
  match ts with
  | .version .. :: _ => explicit
  | .tagHandle .. :: _ => explicit
  | .documentStart :: _ => explicit
  | ts => readNode .standard .block (3 * ts.length + 3) ts
where
  explicit : Option (Tree × List (Token Nat)) := do
    let (d, ts) ← readDirectives ⟨false, []⟩ ts
    match ts with
    | .documentStart :: ts => readContent (d.handles ++ .standard) ts
    | _ => none

/-- Whether a token is the mark at the end of a document. -/
def isDocumentEnd : Token Nat → Bool
  | .documentEnd => true
  | _ => false

/-- The tree of the only document among some tokens; `none` inside if there are no tokens. -/
def Tree.ofTokens? (ts : List (Token String)) : Option (Option Tree) := do
  let ts ← numberLabels [] ts
  if ts.isEmpty then return none
  let (tree, ts) ← readDocument ts
  guard (ts.dropWhile isDocumentEnd).isEmpty
  return some tree

end ResourceDelta.Yaml
