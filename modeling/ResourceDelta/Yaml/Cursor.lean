import ResourceDelta.Text.Octets

/-!
# Places in a YAML text

A cursor is a place in a text: what is left of it, and the line and column reached.  Everything that
reads YAML moves a cursor forward; a text that cannot be read yields `none`.

`iterate` repeats a step until it is done.  A step that goes on takes at least one character, so the
characters left bound the repetitions.
-/

set_option autoImplicit false

namespace ResourceDelta.Yaml

/-! ## Characters -/

/-- A character that a YAML text may hold. -/
def isAcceptable (c : Char) : Bool :=
  let n := c.toNat
  n = 0x09 || n = 0x0a || n = 0x0d || (0x20 ≤ n && n ≤ 0x7e) || n = 0x85 ||
    (0xa0 ≤ n && n ≤ 0xd7ff) || (0xe000 ≤ n && n ≤ 0xfffd) || 0x10000 ≤ n

/-- A character that ends a line. -/
def isBreak (c : Char) : Bool :=
  c = '\n' || c = '\r' || c = '\u0085' || c = '\u2028' || c = '\u2029'

/-- A space or a tab. -/
def isBlank (c : Char) : Bool :=
  c = ' ' || c = '\t'

/-- Whether a character, if there is one, separates words. -/
def isSeparator : Option Char → Bool
  | none => true
  | some c => isBlank c || isBreak c

/-- Whether a character, if there is one, ends a line. -/
def isLineEnd : Option Char → Bool
  | none => true
  | some c => isBreak c

/-- A character of a name: an ASCII letter or digit, an underscore or a hyphen. -/
def isNameCharacter (c : Char) : Bool :=
  c.isAlphanum || c = '_' || c = '-'

/-! ## Places -/

/-- A place in a text. -/
structure Cursor where
  rest : List Char
  /-- The number of octets before the place. -/
  index : Nat
  line : Nat
  column : Nat

namespace Cursor

/-- The start of a text. -/
def start (text : List Char) : Cursor := ⟨text, 0, 0, 0⟩

/-- The next character. -/
def peek (c : Cursor) : Option Char :=
  c.rest.head?

/-- The character `n` places on. -/
def peekAt (c : Cursor) (n : Nat) : Option Char :=
  c.rest[n]?

/-- Whether a given character is next. -/
def isAt (c : Cursor) (x : Char) : Bool :=
  c.peek = some x

/-- The place `n` characters on in the same line. -/
def advance (c : Cursor) (n : Nat) : Cursor :=
  { c with
    rest := c.rest.drop n
    index := c.index + Text.octetCount (c.rest.take n)
    column := c.column + n }

/-- The characters from here on that satisfy `p`, and the place after them. -/
def takeWhile (c : Cursor) (p : Char → Bool) : List Char × Cursor :=
  let taken := c.rest.takeWhile p
  (taken, c.advance taken.length)

/-- The place after the characters from here on that satisfy `p`. -/
def skipWhile (c : Cursor) (p : Char → Bool) : Cursor :=
  (c.takeWhile p).2

/-- The place after the blanks from here on. -/
def skipBlanks (c : Cursor) : Cursor :=
  c.skipWhile isBlank

/-- The place after `n` characters that end a line. -/
def newLine (c : Cursor) (n : Nat) : Cursor :=
  { rest := c.rest.drop n
    index := c.index + Text.octetCount (c.rest.take n)
    line := c.line + 1
    column := 0 }

/-- The end of a line as it is read, and the place after it; nothing if the line does not end
here. -/
def readBreak (c : Cursor) : String × Cursor :=
  match c.rest with
  | '\r' :: '\n' :: _ => ("\n", c.newLine 2)
  | x :: _ =>
    if x = '\u2028' || x = '\u2029' then (String.singleton x, c.newLine 1)
    else if isBreak x then ("\n", c.newLine 1)
    else ("", c)
  | [] => ("", c)

/-- The place after a comment, if one starts here. -/
def skipComment (c : Cursor) : Cursor :=
  if c.isAt '#' then c.skipWhile fun x => !isBreak x else c

/-- The start of the next line, if nothing but blanks and a comment is left of this one. -/
def finishLine (c : Cursor) : Option Cursor :=
  let c := c.skipBlanks.skipComment
  if isLineEnd c.peek then some c.readBreak.2 else none

/-- Whether three of a given character stand alone at the start of a line. -/
def isMarker (c : Cursor) (x : Char) : Bool :=
  c.column = 0 && c.rest.take 3 = [x, x, x] && isSeparator (c.peekAt 3)

/-- Whether a line starts here that starts or ends a document. -/
def isDocumentMarker (c : Cursor) : Bool :=
  c.isMarker '-' || c.isMarker '.'

end Cursor

/-! ## Repeated steps -/

/-- What follows a step. -/
inductive Next (σ α : Type) where
  | again (state : σ)
  | done (result : α)

/-- Repeats a step until it is done, going on at most once for each of the characters left. -/
def iterate {σ α : Type} (step : σ → Option (Next σ α)) (left : List Char) (state : σ) :
    Option α :=
  match step state, left with
  | some (.done result), _ => some result
  | some (.again state), _ :: left => iterate step left state
  | _, _ => none

/-- Repeats a step that moves a cursor until it is done. -/
def Cursor.iterate {σ α : Type} (c : Cursor) (step : Cursor × σ → Option (Next (Cursor × σ) α))
    (state : σ) : Option α :=
  Yaml.iterate step c.rest (c, state)

end ResourceDelta.Yaml
