import ResourceDelta.Comparison.Program

/-!
# Layout of comparison programs

A program is laid out as lines of Go, one tab per level.  What depends on where the fragment is used
is left open: the layout is a template, a sequence of literal pieces and holes, and `Names` says
what the holes stand for.

`layout` is the template of a program, and `Template.fill` the text that it becomes.
-/

set_option autoImplicit false

namespace ResourceDelta

/-- What a template leaves open. -/
inductive Hole where
  /-- The fields of the left resource. -/
  | left
  /-- The fields of the right resource. -/
  | right
  /-- What precedes a path when it is recorded. -/
  | root
  /-- The collector of differences. -/
  | delta
  deriving DecidableEq, Repr

/-- A piece of a template. -/
inductive Piece where
  | text (s : String)
  | hole (h : Hole)
  deriving DecidableEq, Repr

/-- A text with holes. -/
abbrev Template := List Piece

/-- What the holes of a template stand for. -/
structure Names where
  left : String
  right : String
  root : String
  delta : String
  deriving DecidableEq, Repr

/-- What a hole stands for. -/
def Names.of (names : Names) : Hole → String
  | .left => names.left
  | .right => names.right
  | .root => names.root
  | .delta => names.delta

/-- The text of a piece. -/
def Piece.fill (names : Names) : Piece → String
  | .text s => s
  | .hole h => names.of h

/-- The text that a template becomes. -/
def Template.fill (template : Template) (names : Names) : String :=
  String.join (template.map (Piece.fill names))

/-- The value of a field on one side. -/
def operand (side : Hole) (path : FieldPath) : Template :=
  [.hole side, .text ("." ++ path.text)]

/-- The condition that two values of a field are unequal. -/
def Check.condition (check : Check) (path : FieldPath) : Template :=
  let left := operand .left path
  let right := operand .right path
  let call (function : String) : Template :=
    [.text ("!" ++ function ++ "(")] ++ left ++ [.text ", "] ++ right ++ [.text ")"]
  match check with
  | .targets => [.text "*"] ++ left ++ [.text " != *"] ++ right
  | .times => [.text "!"] ++ left ++ [.text ".Equal("] ++ right ++ [.text ")"]
  | .stringMaps => call "ackcompare.MapStringStringPEqual"
  | .stringLists => call "ackcompare.SliceStringPEqual"
  | .bytes => call "bytes.Equal"
  | .deep => call "reflect.DeepEqual"

/-- The line that records a difference in a field. -/
def recordLine (path : FieldPath) : Template :=
  [.hole .delta, .text ".Add(\"", .hole .root, .text (path.text ++ "\", ")] ++
    operand .left path ++ [.text ", "] ++ operand .right path ++ [.text ")"]

/-- The line that opens the block for unequal values. -/
def unequalLine (check : Check) (path : FieldPath) : Template :=
  [.text "if "] ++ check.condition path ++ [.text " \x7b"]

/-- The line that opens the block for one value that is nil. -/
def oneNilLine (path : FieldPath) : Template :=
  [.text "if ackcompare.HasNilDifference("] ++ operand .left path ++ [.text ", "] ++
    operand .right path ++ [.text ") \x7b"]

/-- The line between the block for one value that is nil and the block for two that are not. -/
def presentLine (path : FieldPath) : Template :=
  [.text "\x7d else if "] ++ operand .left path ++ [.text " != nil && "] ++ operand .right path ++
    [.text " != nil \x7b"]

/-- The line that closes a block. -/
def closingLine : Template :=
  [.text "\x7d"]

/-- A line of code at its level. -/
structure Line where
  level : Nat
  code : Template
  deriving DecidableEq, Repr

/-- A line as it stands in a fragment. -/
def Line.template (line : Line) : Template :=
  .text (String.ofList (List.replicate line.level '\t')) :: line.code ++ [.text "\n"]

mutual

/-- The lines of a statement at a level. -/
def Statement.lines (level : Nat) : Statement → List Line
  | .record path => [⟨level, recordLine path⟩]
  | .ifUnequal check path body =>
    ⟨level, unequalLine check path⟩ :: programLines (level + 1) body ++ [⟨level, closingLine⟩]
  | .ifOneNil path mismatch present =>
    ⟨level, oneNilLine path⟩ :: programLines (level + 1) mismatch ++
      ⟨level, presentLine path⟩ :: programLines (level + 1) present ++ [⟨level, closingLine⟩]

/-- The lines of some statements at a level. -/
def programLines (level : Nat) : List Statement → List Line
  | [] => []
  | statement :: program => statement.lines level ++ programLines level program

end

/-- The template of a program at a level: an empty line, then the lines of its statements. -/
def layout (level : Nat) (program : List Statement) : Template :=
  .text "\n" :: (programLines level program).flatMap Line.template

end ResourceDelta
