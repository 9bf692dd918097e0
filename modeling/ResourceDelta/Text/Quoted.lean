import ResourceDelta.Text.Printable

/-!
# Quoted text

Messages show foreign text in double quotes.  A quote and a backslash are escaped by a backslash,
the usual control characters by their letter, and every other character that does not print on its
own by its code point, as in `\u{200b}`; all else, a single quote included, stands for itself.
-/

set_option autoImplicit false

namespace ResourceDelta.Text

/-- The lower-case hexadecimal digits of a code point, without padding. -/
def hexDigits (n : Nat) : String :=
  String.ofList (Nat.toDigits 16 n)

/-- How a character is written between double quotes. -/
def escape (c : Char) : String :=
  match c with
  | '"' => "\\\""
  | '\\' => "\\\\"
  | '\n' => "\\n"
  | '\r' => "\\r"
  | '\t' => "\\t"
  | '\x00' => "\\0"
  | c => if printsAlone c then c.toString else "\\u\x7b" ++ hexDigits c.toNat ++ "\x7d"

/-- A text in double quotes. -/
def quoted (s : String) : String :=
  "\"" ++ String.join (s.toList.map escape) ++ "\""

end ResourceDelta.Text
