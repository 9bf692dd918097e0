/-!
# Texts as octets

Where the size of a text counts, or where it is given octet by octet, it is seen as its octets in
UTF-8.  Not every row of octets is one of a text.
-/

set_option autoImplicit false

namespace ResourceDelta.Text

/-- A row of octets. -/
abbrev Octets := List UInt8

/-- The octets of a text. -/
def octets (s : String) : Octets :=
  s.toUTF8.data.toList

/-- The text with some octets, if there is one. -/
def ofOctets? (o : Octets) : Option String :=
  String.fromUTF8? ⟨o.toArray⟩

/-- The number of octets of some characters. -/
def octetCount (cs : List Char) : Nat :=
  cs.foldl (fun n c => n + c.utf8Size) 0

end ResourceDelta.Text
