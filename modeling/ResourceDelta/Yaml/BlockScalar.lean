import ResourceDelta.Yaml.Cursor

/-!
# Block scalars

A block scalar is written on lines of its own, indented alike.  A literal one keeps its line breaks;
in a folded one a line break between two lines that start with no blank becomes a space, or vanishes
if empty lines follow it.  An indicator says what becomes of the line breaks at the end.
-/

set_option autoImplicit false

namespace ResourceDelta.Yaml

/-- What becomes of the line breaks at the end of a block scalar. -/
inductive Chomping where
  /-- All are dropped. -/
  | strip
  /-- The first is kept. -/
  | clip
  /-- All are kept. -/
  | keep
  deriving DecidableEq, Repr

/-- What stands after the mark of a block scalar. -/
structure BlockHeader where
  chomping : Chomping
  /-- The indentation relative to the surrounding block, if it is given. -/
  increment : Option Nat

/-- Reads an indicator of chomping. -/
def Cursor.readChomping (c : Cursor) : Option (Chomping × Cursor) :=
  if c.isAt '+' then some (.keep, c.advance 1)
  else if c.isAt '-' then some (.strip, c.advance 1)
  else none

/-- Reads an indicator of indentation; zero is refused. -/
def Cursor.readIncrement (c : Cursor) : Option (Option Nat × Cursor) :=
  match c.peek with
  | none => some (none, c)
  | some x =>
    if !x.isDigit then some (none, c)
    else if x = '0' then none
    else some (some (x.toNat - '0'.toNat), c.advance 1)

/-- Reads the rest of the line with the mark of a block scalar. -/
def Cursor.readBlockHeader (c : Cursor) : Option (BlockHeader × Cursor) := do
  match c.readChomping with
  | some (chomping, c) =>
    let (increment, c) ← c.readIncrement
    let c ← c.finishLine
    return (⟨chomping, increment⟩, c)
  | none =>
    let (increment, c) ← c.readIncrement
    let (chomping, c) := (if increment.isSome then c.readChomping else none).getD (.clip, c)
    let c ← c.finishLine
    return (⟨chomping, increment⟩, c)

/-- The empty lines before a line of a block scalar, as far as they have been read. -/
structure EmptyLines where
  breaks : String
  /-- The greatest column that a line starts at. -/
  deepest : Nat

/-- One step of reading empty lines; `indent` is the indentation of the scalar, if it is known. -/
def emptyLinesStep (indent : Option Nat) :
    Cursor × EmptyLines → Option (Next (Cursor × EmptyLines) (EmptyLines × Cursor))
  | (c, lines) =>
    let spaces := (c.rest.takeWhile (· = ' ')).length
    let c :=
      match indent with
      | none => c.advance spaces
      | some indent => c.advance (min spaces (indent - c.column))
    let lines := { lines with deepest := max lines.deepest c.column }
    if c.isAt '\t' && indent.all fun indent => c.column < indent then none
    else if c.peek.any isBreak then
      let (b, c) := c.readBreak
      some (.again (c, { lines with breaks := lines.breaks ++ b }))
    else some (.done (lines, c))

/-- Reads empty lines. -/
def Cursor.readEmptyLines (c : Cursor) (indent : Option Nat) : Option (EmptyLines × Cursor) :=
  c.iterate (emptyLinesStep indent) ⟨"", 0⟩

/-- A block scalar as far as it has been read. -/
structure BlockScalar where
  text : String
  /-- The line break after the last line. -/
  lineBreak : String
  /-- The line breaks of the empty lines after it. -/
  emptyLines : String
  /-- Whether the last line starts with a blank. -/
  startsBlank : Bool

/-- A block scalar with the line breaks since its last line. -/
def BlockScalar.joined (s : BlockScalar) (literal nextStartsBlank : Bool) : String :=
  if !literal && s.lineBreak = "\n" && !s.startsBlank && !nextStartsBlank then
    s.text ++ (if s.emptyLines = "" then " " else "") ++ s.emptyLines
  else s.text ++ s.lineBreak ++ s.emptyLines

/-- A block scalar with the line breaks at its end. -/
def BlockScalar.chomped (s : BlockScalar) : Chomping → String
  | .strip => s.text
  | .clip => s.text ++ s.lineBreak
  | .keep => s.text ++ s.lineBreak ++ s.emptyLines

/-- One step of reading a block scalar: a line and the empty lines after it. -/
def blockStep (literal : Bool) (indent : Nat) :
    Cursor × BlockScalar → Option (Next (Cursor × BlockScalar) (BlockScalar × Cursor))
  | (c, s) =>
    match c.peek with
    | none => some (.done (s, c))
    | some x =>
      if c.column ≠ indent then some (.done (s, c))
      else do
        let (line, c) := c.takeWhile fun x => !isBreak x
        let (lineBreak, c) := c.readBreak
        let (lines, c) ← c.readEmptyLines (some indent)
        let text := s.joined literal (isBlank x) ++ String.ofList line
        return .again (c, ⟨text, lineBreak, lines.breaks, isBlank x⟩)

/-- Reads the block scalar that starts with the mark here, in a block indented by `outer`. -/
def Cursor.readBlock (c : Cursor) (literal : Bool) (outer : Int) :
    Option (String × Cursor) := do
  let (header, c) ← (c.advance 1).readBlockHeader
  let given := header.increment.map fun n => (if 0 ≤ outer then outer.toNat else 0) + n
  let (lines, c) ← c.readEmptyLines given
  let indent := given.getD (max lines.deepest (max (outer + 1).toNat 1))
  let (s, c) ← c.iterate (blockStep literal indent) ⟨"", "", lines.breaks, false⟩
  return (s.chomped header.chomping, c)

end ResourceDelta.Yaml
