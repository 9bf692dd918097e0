import ResourceDelta.Text.Digits
import ResourceDelta.Yaml.Cursor
import ResourceDelta.Yaml.Token

/-!
# Reading tags, anchors and directives

A tag is written as a handle and a suffix, or in full between angle brackets.  Percent signs write
octets in it that only have to look like the first or a further one of a character; the octet zero
ends it.  A directive stands on a line of its own before a document.
-/

set_option autoImplicit false

namespace ResourceDelta.Yaml

/-- A character of a tag; a flow mark may only stand in a tag that is written in full. -/
def isTagCharacter (full : Bool) (c : Char) : Bool :=
  isNameCharacter c || ";/?:@&=+$.%!~*'()".toList.contains c ||
    (full && (c = ',' || c = '[' || c = ']'))

/-- Reads the octet that is written with a percent sign here. -/
def Cursor.readOctet (c : Cursor) : Option (UInt8 × Cursor) := do
  guard (c.isAt '%')
  let digits := (c.rest.drop 1).take 2
  guard (digits.length = 2)
  let octet ← Text.number? 16 digits
  return (octet.toUInt8, c.advance 3)

/-- The number of octets that follow the first one of a character. -/
def furtherOctets? (first : UInt8) : Option Nat :=
  if first < 0x80 then some 0
  else if first / 32 = 6 then some 1
  else if first / 16 = 14 then some 2
  else if first / 8 = 30 then some 3
  else none

/-- Reads the further octets of a character. -/
def Cursor.readFurtherOctets (c : Cursor) : Nat → Option (Text.Octets × Cursor)
  | 0 => some ([], c)
  | n + 1 => do
    let (octet, c) ← c.readOctet
    guard (octet / 64 = 2)
    let (octets, c) ← c.readFurtherOctets n
    return (octet :: octets, c)

/-- Reads the octets of a character that are written with percent signs here. -/
def Cursor.readOctets (c : Cursor) : Option (Text.Octets × Cursor) := do
  let (first, c) ← c.readOctet
  let further ← furtherOctets? first
  let (octets, c) ← c.readFurtherOctets further
  return (first :: octets, c)

/-- One step of reading the octets of a tag. -/
def tagTextStep (full : Bool) :
    Cursor × Array UInt8 → Option (Next (Cursor × Array UInt8) (Text.Octets × Cursor))
  | (c, text) =>
    match c.peek with
    | none => some (.done (text.toList, c))
    | some x =>
      if x = '%' then do
        let (octets, c) ← c.readOctets
        return .again (c, text ++ octets)
      else if isTagCharacter full x then some (.again (c.advance 1, text.push x.toUInt8))
      else some (.done (text.toList, c))

/-- Reads the octets of a tag or a part of one. -/
def Cursor.readTagText (c : Cursor) (full : Bool) : Option (Text.Octets × Cursor) :=
  c.iterate (tagTextStep full) #[]

/-- The octets before the first that is zero. -/
def beforeZero (o : Text.Octets) : Text.Octets :=
  o.takeWhile (· ≠ 0)

/-- Reads a handle: an exclamation mark, a name that may be empty, and an exclamation mark that may
be missing. -/
def Cursor.readHandle (c : Cursor) : Option (String × Cursor) := do
  guard (c.isAt '!')
  let (name, c) := (c.advance 1).takeWhile isNameCharacter
  if c.isAt '!' then return (String.ofList ('!' :: name ++ ['!']), c.advance 1)
  else return (String.ofList ('!' :: name), c)

/-- Whether a text is a handle on its own, and not the start of a tag without one. -/
def isClosedHandle (handle : String) : Bool :=
  1 < handle.length && handle.endsWith "!"

/-- Reads a tag that is written in full. -/
def Cursor.readFullTag (c : Cursor) : Option ((String × Text.Octets) × Cursor) := do
  let (suffix, c) ← (c.advance 2).readTagText true
  guard (!suffix.isEmpty && c.isAt '>')
  return (("", beforeZero suffix), c.advance 1)

/-- Reads a tag that starts with a handle. -/
def Cursor.readShortTag (c : Cursor) : Option ((String × Text.Octets) × Cursor) := do
  let (handle, c) ← c.readHandle
  let (text, c) ← c.readTagText false
  if isClosedHandle handle then
    guard !text.isEmpty
    return ((handle, beforeZero text), c)
  else
    let suffix := beforeZero ((Text.octets handle).drop 1 ++ text)
    return (if suffix.isEmpty then ("", Text.octets "!") else ("!", suffix), c)

/-- Reads the tag that starts here: its handle and its suffix. -/
def Cursor.readTag (c : Cursor) (flow : Bool) : Option ((String × Text.Octets) × Cursor) := do
  let (tag, c) ← if c.peekAt 1 = some '<' then c.readFullTag else c.readShortTag
  guard (isSeparator c.peek || (flow && c.isAt ','))
  return (tag, c)

/-- Reads the label of an anchor or alias after its mark. -/
def Cursor.readLabel (c : Cursor) : Option (String × Cursor) := do
  let (label, c) := (c.advance 1).takeWhile isNameCharacter
  guard (!label.isEmpty)
  guard (isSeparator c.peek || c.peek.any "?:,]\x7d%@\x60".toList.contains)
  return (String.ofList label, c)

/-- Reads a number of a version: one to nine digits. -/
def Cursor.readVersionNumber (c : Cursor) : Option (Nat × Cursor) := do
  let (digits, c) := c.takeWhile Char.isDigit
  guard (!digits.isEmpty && digits.length ≤ 9)
  let number ← Text.number? 10 digits
  return (number, c)

/-- Reads the directive that starts with the percent sign here, to the end of its line. -/
def Cursor.readDirective (c : Cursor) : Option (Token String × Cursor) := do
  let (name, c) := (c.advance 1).takeWhile isNameCharacter
  guard (isSeparator c.peek)
  match String.ofList name with
  | "YAML" =>
    let (major, c) ← c.skipBlanks.readVersionNumber
    guard (c.isAt '.')
    let (minor, c) ← (c.advance 1).readVersionNumber
    let c ← c.finishLine
    return (.version major minor, c)
  | "TAG" =>
    let (handle, c) ← c.skipBlanks.readHandle
    guard (handle = "!" || isClosedHandle handle)
    guard (c.peek.any isBlank)
    let (start, c) ← c.skipBlanks.readTagText true
    guard (!start.isEmpty && isSeparator c.peek)
    let c ← c.finishLine
    return (.tagHandle handle (beforeZero start), c)
  | _ => none

end ResourceDelta.Yaml
