import ResourceDelta.Data.Node
import ResourceDelta.Text.Digits
import ResourceDelta.Text.Octets

/-!
# Typed values of YAML scalars

A plain scalar without a tag is null, a truth value or a number if it is written like one, and else
a text; every other scalar is a text unless its tag says what it is.  A scalar with a private tag
that is a text itself has no value, and neither has an integer that is too large.
-/

set_option autoImplicit false

namespace ResourceDelta.Yaml

/-! ## Null and truth values -/

/-- Whether a text is written like null. -/
def isNull (text : String) : Bool :=
  ["null", "Null", "NULL", "~"].contains text

/-- The truth value that a text is written like. -/
def truthValue? (text : String) : Option Bool :=
  if ["true", "True", "TRUE"].contains text then some true
  else if ["false", "False", "FALSE"].contains text then some false
  else none

/-! ## Integers -/

/-- Whether a text is a sign and a row of digits that starts with a needless zero. -/
def isPadded (text : List Char) : Bool :=
  let digits :=
    match text with
    | '-' :: digits => digits
    | '+' :: digits => digits
    | digits => digits
  1 < digits.length && digits.head? = some '0' && digits.all Char.isDigit

/-- The natural number that a text without a sign is written like. -/
def magnitude? (text : List Char) : Option Nat :=
  match text with
  | '0' :: 'x' :: digits => Text.number? 16 digits
  | '0' :: 'o' :: digits => Text.number? 8 digits
  | '0' :: 'b' :: digits => Text.number? 2 digits
  | digits => if isPadded digits then none else Text.number? 10 digits

/-- A natural number as a value; beyond one word there is none, and beyond two words it is no
integer. -/
def naturalValue (n : Nat) : Option (Option Value) :=
  if n ≤ Text.maxWord then some (some (.int n))
  else if n < Nat.pow 2 128 then some none
  else none

/-- A negative integer as a value.  Negative zero is kept apart from zero. -/
def negativeValue (written : String) (n : Nat) : Option (Option Value) :=
  if n = 0 then some (some (.real written))
  else if n ≤ Nat.pow 2 63 then some (some (.int (-n)))
  else if n ≤ Nat.pow 2 127 then some none
  else none

/-- The integer that a text is written like: `none` if it is not, `none` inside if it is too large
for a value. -/
def integerValue? (text : String) : Option (Option Value) :=
  match text.toList with
  | '-' :: rest => (magnitude? rest).bind (negativeValue text)
  | '+' :: rest => (magnitude? rest).bind naturalValue
  | rest => (magnitude? rest).bind naturalValue

/-! ## Floating-point numbers -/

/-- Whether digits times a power of ten are beyond all floating-point numbers.  `scale` is the
exponent of ten. -/
def isBeyondFloats (digits : List Char) (scale : Int) : Bool :=
  let digits := digits.dropWhile (· = '0')
  let size : Int := digits.length + scale
  if digits.isEmpty || size < 309 then false
  else if 310 ≤ size then true
  else
    let n := (Text.number? 10 digits).getD 0
    let bound := Nat.pow 2 1024 - Nat.pow 2 970
    if 0 ≤ scale then decide (bound ≤ n * Nat.pow 10 scale.toNat)
    else decide (bound * Nat.pow 10 (-scale).toNat ≤ n)

/-- Reads an exponent of ten: a sign and digits after the letter, or nothing. -/
def exponent? (text : List Char) : Option Int :=
  match text with
  | [] => some 0
  | e :: rest =>
    if e = 'e' || e = 'E' then
      match rest with
      | '-' :: digits => (Text.number? 10 digits).map fun n => -(n : Int)
      | '+' :: digits => (Text.number? 10 digits).map fun n => (n : Int)
      | digits => (Text.number? 10 digits).map fun n => (n : Int)
    else none

/-- Whether a text without a sign is written like a finite number. -/
def isFinite (text : List Char) : Bool :=
  let whole := text.takeWhile Char.isDigit
  let rest := text.dropWhile Char.isDigit
  let fraction :=
    match rest with
    | '.' :: rest => rest.takeWhile Char.isDigit
    | _ => []
  let rest :=
    match rest with
    | '.' :: rest => rest.dropWhile Char.isDigit
    | rest => rest
  let digits := whole ++ fraction
  match exponent? rest with
  | none => false
  | some e => !digits.isEmpty && !isBeyondFloats digits (e - fraction.length)

/-- Whether a text is written like a floating-point number. -/
def isReal (text : String) : Bool :=
  let infinities := [".inf", ".Inf", ".INF"].map String.toList
  let signed :=
    match text.toList with
    | '-' :: rest => infinities.contains rest || isFinite rest
    | '+' :: rest => infinities.contains rest || isFinite rest
    | rest => infinities.contains rest || isFinite rest
  [".nan", ".NaN", ".NAN"].contains text || signed

/-! ## Scalars -/

/-- The typed value of a plain scalar without a tag. -/
def plainValue (text : String) : Option Value :=
  if text = "" || isNull text then some .null
  else
    match truthValue? text with
    | some b => some (.bool b)
    | none =>
      match integerValue? text with
      | some value => value
      | none =>
        if !isPadded text.toList && isReal text then some (.real text) else some (.text text)

/-- A tag that everyone knows. -/
def coreTag (name : String) : Text.Octets :=
  Text.octets ("tag:yaml.org,2002:" ++ name)

/-- Whether a tag has the form of a private one. -/
def startsPrivate (tag : Text.Octets) : Bool :=
  tag.head? = some '!'.toUInt8

/-- Whether a tag is private, so that only its author knows what it means.  It must be a text. -/
def isPrivateTag (tag : Option Text.Octets) : Bool :=
  tag.any fun tag => startsPrivate tag && (Text.ofOctets? tag).isSome

/-- The typed value of a scalar. -/
def scalarValue (tag : Option Text.Octets) (text : String) (plain : Bool) : Option Value :=
  let untagged := if plain then plainValue text else some (.text text)
  match tag with
  | none => untagged
  | some tag =>
    if isPrivateTag (some tag) then none
    else if tag = coreTag "bool" then (truthValue? text).map .bool
    else if tag = coreTag "int" then (integerValue? text).join
    else if tag = coreTag "float" then if isReal text then some (.real text) else none
    else if tag = coreTag "null" then if isNull text then some .null else none
    else if startsPrivate tag then untagged
    else some (.text text)

end ResourceDelta.Yaml
