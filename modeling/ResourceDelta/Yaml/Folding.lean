import ResourceDelta.Yaml.Cursor

/-!
# Line folding

Between the words of a scalar that is not written line by line, blanks and line breaks fold: blanks
within a line stay, a single line break becomes a space, of several the first is dropped, and blanks
around line breaks vanish.
-/

set_option autoImplicit false

namespace ResourceDelta.Yaml

/-- What stands between two words of a scalar. -/
structure Gap where
  /-- The blanks, as long as there is no line break. -/
  blanks : String
  /-- Whether there is a line break. -/
  broken : Bool
  /-- The first line break. -/
  first : String
  /-- The line breaks after the first. -/
  more : String

namespace Gap

/-- Nothing. -/
def empty : Gap := ⟨"", false, "", ""⟩

/-- A line break that leaves no trace. -/
def escapedBreak : Gap := ⟨"", true, "", ""⟩

/-- What a gap becomes. -/
def fold (g : Gap) : String :=
  if !g.broken then g.blanks
  else if g.first = "\n" then
    if g.more = "" then " " else g.more
  else g.first ++ g.more

end Gap

/-- One step of reading a gap. -/
def gapStep (tabsFrom : Int) : Cursor × Gap → Option (Next (Cursor × Gap) (Gap × Cursor))
  | (c, g) =>
    match c.peek with
    | none => some (.done (g, c))
    | some x =>
      if isBlank x then
        if !g.broken then some (.again (c.advance 1, { g with blanks := g.blanks.push x }))
        else if x = '\t' && decide ((c.column : Int) < tabsFrom) then none
        else some (.again (c.advance 1, g))
      else if isBreak x then
        let (b, c) := c.readBreak
        if !g.broken then some (.again (c, { g with blanks := "", broken := true, first := b }))
        else some (.again (c, { g with more := g.more ++ b }))
      else some (.done (g, c))

/-- Reads on from a gap.  After a line break, tabs before column `tabsFrom` are refused. -/
def Cursor.readGap (c : Cursor) (tabsFrom : Int) (g : Gap) : Option (Gap × Cursor) :=
  c.iterate (gapStep tabsFrom) g

end ResourceDelta.Yaml
