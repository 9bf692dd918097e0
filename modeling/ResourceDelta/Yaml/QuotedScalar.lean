import ResourceDelta.Text.Digits
import ResourceDelta.Yaml.Folding

/-!
# Quoted scalars

A scalar in single quotes holds everything up to the closing quote, a quote being written twice.  In
double quotes a backslash starts an escape.  Lines are folded in both.
-/

set_option autoImplicit false

namespace ResourceDelta.Yaml

/-- The character that a backslash and a letter stand for. -/
def escaped? : Char → Option Char
  | '0' => some '\x00'
  | 'a' => some '\x07'
  | 'b' => some '\x08'
  | 't' => some '\t'
  | '\t' => some '\t'
  | 'n' => some '\n'
  | 'v' => some '\x0b'
  | 'f' => some '\x0c'
  | 'r' => some '\r'
  | 'e' => some '\x1b'
  | ' ' => some ' '
  | '"' => some '"'
  | '/' => some '/'
  | '\\' => some '\\'
  | 'N' => some '\u0085'
  | '_' => some '\u00a0'
  | 'L' => some '\u2028'
  | 'P' => some '\u2029'
  | _ => none

/-- The number of hexadecimal digits after a backslash and a letter. -/
def escapeDigits? : Char → Option Nat
  | 'x' => some 2
  | 'u' => some 4
  | 'U' => some 8
  | _ => none

/-- The character with a given code. -/
def character? (code : Nat) : Option Char :=
  if h : code.isValidChar then some (Char.ofNatAux code h) else none

/-- Reads the escape that starts with the backslash here. -/
def Cursor.readEscape (c : Cursor) : Option (Char × Cursor) := do
  let letter ← c.peekAt 1
  match escaped? letter with
  | some x => return (x, c.advance 2)
  | none =>
    let count ← escapeDigits? letter
    let digits := (c.rest.drop 2).take count
    guard (digits.length = count)
    let code ← Text.number? 16 digits
    let x ← character? code
    return (x, c.advance (2 + count))

/-- One step of reading a quoted scalar. -/
def quotedStep (quote : Char) :
    Cursor × String → Option (Next (Cursor × String) (String × Cursor))
  | (c, text) =>
    if c.isDocumentMarker then none
    else
      match c.peek with
      | none => none
      | some x =>
        if isBlank x || isBreak x then do
          let (gap, c) ← c.readGap 0 .empty
          return .again (c, text ++ gap.fold)
        else if quote = '\'' && x = '\'' && c.peekAt 1 = some '\'' then
          some (.again (c.advance 2, text.push '\''))
        else if x = quote then some (.done (text, c.advance 1))
        else if quote = '"' && x = '\\' then
          if (c.peekAt 1).any isBreak then do
            let (gap, c) ← (c.advance 1).readBreak.2.readGap 0 .escapedBreak
            return .again (c, text ++ gap.fold)
          else do
            let (x, c) ← c.readEscape
            return .again (c, text.push x)
        else some (.again (c.advance 1, text.push x))

/-- Reads the quoted scalar that starts with the quote here. -/
def Cursor.readQuoted (c : Cursor) (quote : Char) : Option (String × Cursor) :=
  (c.advance 1).iterate (quotedStep quote) ""

end ResourceDelta.Yaml
