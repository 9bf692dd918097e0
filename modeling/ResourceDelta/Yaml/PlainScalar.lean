import ResourceDelta.Yaml.Folding

/-!
# Plain scalars

A plain scalar is written without quotes.  It ends before a colon that separates, before a comment,
before a line that is not indented enough, and in a flow collection also before the marks of the
collection.
-/

set_option autoImplicit false

namespace ResourceDelta.Yaml

/-- The marks of flow collections. -/
def isFlowMark (c : Char) : Bool :=
  c = ',' || c = '[' || c = ']' || c = '{' || c = '}'

/-- Reads on in a word.  In a flow collection a colon may not stand directly before a mark. -/
def plainWord (flow : Bool) (word : String) : List Char → Option String
  | [] => some word
  | c :: cs =>
    if isBlank c || isBreak c then some word
    else if flow && c = ':' && cs.head?.any fun x => isFlowMark x || x = '?' then none
    else if c = ':' && isSeparator cs.head? then some word
    else if flow && isFlowMark c then some word
    else plainWord flow (word.push c) cs

/-- A plain scalar as far as it has been read. -/
structure PlainScalar where
  text : String
  /-- What has been read since the last word. -/
  gap : Gap

/-- One step of reading a plain scalar: a word and the gap after it. -/
def plainStep (flow : Bool) (indent : Int) :
    Cursor × PlainScalar → Option (Next (Cursor × PlainScalar) (PlainScalar × Cursor))
  | (c, s) =>
    if c.isDocumentMarker || c.isAt '#' then some (.done (s, c))
    else do
      let word ← plainWord flow "" c.rest
      let s := if word = "" then s else ⟨s.text ++ s.gap.fold ++ word, .empty⟩
      let c := c.advance word.length
      if !c.peek.any fun x => isBlank x || isBreak x then return .done (s, c)
      let (gap, c) ← c.readGap indent .empty
      let s := { s with gap := gap }
      if !flow && decide ((c.column : Int) < indent) then return .done (s, c)
      return .again (c, s)

/-- Reads a plain scalar whose further lines are indented by `indent` at least. -/
def Cursor.readPlain (c : Cursor) (flow : Bool) (indent : Int) : Option (PlainScalar × Cursor) :=
  c.iterate (plainStep flow indent) ⟨"", .empty⟩

end ResourceDelta.Yaml
