import ResourceDelta.Yaml.BlockScalar
import ResourceDelta.Yaml.PlainScalar
import ResourceDelta.Yaml.QuotedScalar
import ResourceDelta.Yaml.TagReader

/-!
# The tokens of a YAML text

`tokens` splits a text into tokens.

A key of a mapping is recognised by the colon after it.  So wherever a key may start, its place is
kept as a candidate, one for each flow collection that is open and one outside of all; when a colon
follows on the same line, the tokens before the key are put in at that place.  Where the indentation
leaves no other reading, the colon must follow.
-/

set_option autoImplicit false

namespace ResourceDelta.Yaml

/-! ## State -/

/-- A place where a key may have started. -/
structure KeyCandidate where
  /-- Whether nothing but a key can stand there. -/
  required : Bool
  /-- The number of tokens before it. -/
  position : Nat
  /-- The number of octets before it. -/
  index : Nat
  line : Nat
  column : Nat

/-- The state of splitting a text into tokens. -/
structure Scan where
  cursor : Cursor
  /-- The column of the innermost block collection. -/
  indent : Int
  /-- The columns of the block collections around it. -/
  outer : List Int
  /-- Whether a key may start at the next token. -/
  keyAllowed : Bool
  /-- The candidate outside of all flow collections, or in the innermost one. -/
  candidate : Option KeyCandidate
  /-- The candidates around the innermost flow collection. -/
  suspended : List (Option KeyCandidate)
  tokens : Array (Token String)

namespace Scan

/-- Nothing read. -/
def start (text : List Char) : Scan :=
  ⟨.start text, -1, [], true, none, [], #[]⟩

/-- Whether a flow collection is open. -/
def inFlow (s : Scan) : Bool :=
  !s.suspended.isEmpty

/-- Adds a token and goes on from a cursor. -/
def emit (s : Scan) (t : Token String) (c : Cursor) : Scan :=
  { s with tokens := s.tokens.push t, cursor := c }

/-- Puts a token in at a position. -/
def putIn (s : Scan) (position : Nat) (t : Token String) : Scan :=
  { s with tokens := s.tokens.insertIdxIfInBounds position t }

/-! ## Candidates for keys -/

/-- Whether a candidate can no longer be a key: the line has ended or the key would be longer than
1024 octets. -/
def isStale (s : Scan) (k : KeyCandidate) : Bool :=
  k.line < s.cursor.line || k.index + 1024 < s.cursor.index

/-- A candidate, unless it can no longer be a key; `none` if it had to be one. -/
def refresh (s : Scan) (k : Option KeyCandidate) : Option (Option KeyCandidate) :=
  match k with
  | none => some none
  | some k => if s.isStale k then (if k.required then none else some none) else some (some k)

/-- Gives up candidates that can no longer be keys. -/
def dropStale (s : Scan) : Option Scan := do
  let candidate ← s.refresh s.candidate
  let suspended ← s.suspended.mapM s.refresh
  return { s with candidate, suspended }

/-- Gives up the candidate. -/
def dropCandidate (s : Scan) : Option Scan :=
  if s.candidate.any KeyCandidate.required then none else some { s with candidate := none }

/-- Makes the next token a candidate, if a key may start there. -/
def saveCandidate (s : Scan) : Option Scan :=
  if s.keyAllowed then do
    let required := !s.inFlow && s.indent = s.cursor.column
    let k : KeyCandidate :=
      ⟨required, s.tokens.size, s.cursor.index, s.cursor.line, s.cursor.column⟩
    let s ← s.dropCandidate
    return { s with candidate := some k }
  else some s

/-! ## Block collections -/

/-- Opens a block collection at a column, unless one is open there, with its first token at a
position. -/
def openBlock (s : Scan) (column position : Nat) (t : Token String) : Scan :=
  if !s.inFlow && s.indent < column then
    { s.putIn position t with indent := column, outer := s.indent :: s.outer }
  else s

/-- Closes block collections until one is at or left of a column. -/
def closeBlocksFrom (column : Int) : List Int → Int → Array (Token String) →
    Int × List Int × Array (Token String)
  | [], indent, tokens => (indent, [], tokens)
  | around :: outer, indent, tokens =>
    if column < indent then closeBlocksFrom column outer around (tokens.push .blockEnd)
    else (indent, around :: outer, tokens)

/-- Closes the block collections that are right of a column. -/
def closeBlocks (s : Scan) (column : Int) : Scan :=
  if s.inFlow then s
  else
    let (indent, outer, tokens) := closeBlocksFrom column s.outer s.indent s.tokens
    { s with indent, outer, tokens }

/-! ## Between tokens -/

/-- One step of skipping to the next token: the rest of a line that holds none, with the byte order
mark that it may start with. -/
def skipStep (inFlow : Bool) : Cursor × Bool → Option (Next (Cursor × Bool) (Cursor × Bool))
  | (c, keyAllowed) =>
    let c := if c.column = 0 && c.isAt '\ufeff' then c.advance 1 else c
    let tabs := inFlow || !keyAllowed
    let c := (c.skipWhile fun x => x = ' ' || (tabs && x = '\t')).skipComment
    if c.peek.any isBreak then some (.again (c.readBreak.2, keyAllowed || !inFlow))
    else some (.done (c, keyAllowed))

/-- Skips blanks, comments and line ends. -/
def skip (s : Scan) : Option Scan := do
  let (cursor, keyAllowed) ← s.cursor.iterate (skipStep s.inFlow) s.keyAllowed
  return { s with cursor, keyAllowed }

/-- The tokens at the end of the text. -/
def finish (s : Scan) : Option (Array (Token String)) := do
  let s ← (s.closeBlocks (-1)).dropCandidate
  return s.tokens

/-! ## Marks -/

/-- Reads a directive. -/
def readDirective (s : Scan) : Option Scan := do
  let s ← (s.closeBlocks (-1)).dropCandidate
  let (t, c) ← s.cursor.readDirective
  return { s.emit t c with keyAllowed := false }

/-- Reads the mark that starts or ends a document. -/
def readDocumentMarker (s : Scan) (t : Token String) : Option Scan := do
  let s ← (s.closeBlocks (-1)).dropCandidate
  return { s.emit t (s.cursor.advance 3) with keyAllowed := false }

/-- Reads the mark that opens a flow collection. -/
def openFlow (s : Scan) (t : Token String) : Option Scan := do
  let s ← s.saveCandidate
  return { s.emit t (s.cursor.advance 1) with
    suspended := s.candidate :: s.suspended, candidate := none, keyAllowed := true }

/-- Reads the mark that closes a flow collection. -/
def closeFlow (s : Scan) (t : Token String) : Option Scan := do
  let s ← s.dropCandidate
  let s := { s.emit t (s.cursor.advance 1) with keyAllowed := false }
  match s.suspended with
  | [] => return s
  | candidate :: suspended => return { s with candidate, suspended }

/-- Reads the mark between the entries of a flow collection. -/
def readFlowEntry (s : Scan) : Option Scan := do
  let s ← s.dropCandidate
  return { s.emit .flowEntry (s.cursor.advance 1) with keyAllowed := true }

/-- Reads the mark before an entry of a block sequence. -/
def readBlockEntry (s : Scan) : Option Scan := do
  guard (s.inFlow || s.keyAllowed)
  let s := s.openBlock s.cursor.column s.tokens.size .blockSequenceStart
  let s ← s.dropCandidate
  return { s.emit .blockEntry (s.cursor.advance 1) with keyAllowed := true }

/-- Reads the mark before a key. -/
def readKey (s : Scan) : Option Scan := do
  guard (s.inFlow || s.keyAllowed)
  let s := s.openBlock s.cursor.column s.tokens.size .blockMappingStart
  let s ← s.dropCandidate
  return { s.emit .key (s.cursor.advance 1) with keyAllowed := !s.inFlow }

/-- Reads the mark before a value; a candidate becomes the key that it belongs to. -/
def readValue (s : Scan) : Option Scan :=
  match s.candidate with
  | some k =>
    let s := (s.putIn k.position .key).openBlock k.column k.position .blockMappingStart
    some { s.emit .value (s.cursor.advance 1) with candidate := none, keyAllowed := false }
  | none => do
    guard (s.inFlow || s.keyAllowed)
    let s := s.openBlock s.cursor.column s.tokens.size .blockMappingStart
    return { s.emit .value (s.cursor.advance 1) with keyAllowed := !s.inFlow }

/-! ## Nodes -/

/-- Reads a token that may be a key, or the start of one. -/
def readNodePart (s : Scan) (read : Cursor → Option (Token String × Cursor)) : Option Scan := do
  let s ← s.saveCandidate
  let (t, c) ← read s.cursor
  return { s.emit t c with keyAllowed := false }

/-- Reads a block scalar. -/
def readBlockScalar (s : Scan) (literal : Bool) : Option Scan := do
  let s ← s.dropCandidate
  let (text, c) ← s.cursor.readBlock literal s.indent
  return { s.emit (.scalar text false) c with keyAllowed := true }

/-- Reads a scalar in quotes. -/
def readQuoted (s : Scan) (quote : Char) : Option Scan :=
  s.readNodePart fun c => do
    let (text, c) ← c.readQuoted quote
    return (.scalar text false, c)

/-- Reads a plain scalar; a key may follow it if it ends with a line. -/
def readPlain (s : Scan) : Option Scan := do
  let s ← s.saveCandidate
  let (scalar, c) ← s.cursor.readPlain s.inFlow (s.indent + 1)
  return { s.emit (.scalar scalar.text true) c with keyAllowed := scalar.gap.broken }

/-- Whether a plain scalar may start with a character, given the one after it. -/
def startsPlain (inFlow : Bool) (x : Char) (next : Option Char) : Bool :=
  if x = '-' then !next.any isBlank
  else if x = '?' || x = ':' then !inFlow && !isSeparator next
  else !(isSeparator (some x) || ",[]\x7b\x7d#&*!|>'\"%@\x60".toList.contains x)

/-- Reads the token that starts with a character here. -/
def readToken (s : Scan) (x : Char) : Option Scan :=
  let c := s.cursor
  let separated := isSeparator (c.peekAt 1)
  if c.column = 0 && x = '%' then s.readDirective
  else if c.isMarker '-' then s.readDocumentMarker .documentStart
  else if c.isMarker '.' then s.readDocumentMarker .documentEnd
  else if x = '[' then s.openFlow .flowSequenceStart
  else if x = '{' then s.openFlow .flowMappingStart
  else if x = ']' then s.closeFlow .flowSequenceEnd
  else if x = '}' then s.closeFlow .flowMappingEnd
  else if x = ',' then s.readFlowEntry
  else if x = '-' && separated then s.readBlockEntry
  else if x = '?' && (s.inFlow || separated) then s.readKey
  else if x = ':' && (s.inFlow || separated) then s.readValue
  else if x = '*' then s.readNodePart fun c => c.readLabel.map fun (l, c) => (.alias l, c)
  else if x = '&' then s.readNodePart fun c => c.readLabel.map fun (l, c) => (.anchor l, c)
  else if x = '!' then
    s.readNodePart fun c => (c.readTag s.inFlow).map fun ((h, t), c) => (.tag h t, c)
  else if x = '|' && !s.inFlow then s.readBlockScalar true
  else if x = '>' && !s.inFlow then s.readBlockScalar false
  else if x = '\'' || x = '"' then s.readQuoted x
  else if startsPlain s.inFlow x (c.peekAt 1) then s.readPlain
  else none

/-! ## The whole text -/

/-- One step of splitting a text: the next token with what belongs before it. -/
def step (s : Scan) : Option (Next Scan (Array (Token String))) := do
  let s ← s.skip
  let s ← s.dropStale
  let s := s.closeBlocks s.cursor.column
  match s.cursor.peek with
  | none => return .done (← s.finish)
  | some x => return .again (← s.readToken x)

end Scan

/-- The tokens of a text. -/
def tokens (text : String) : Option (List (Token String)) := do
  let characters := text.toList
  guard (characters.all isAcceptable)
  let tokens ← iterate Scan.step characters (.start characters)
  return tokens.toList

end ResourceDelta.Yaml
