/-!
# Numbers written in digits

`number?` reads a row of digits in any base up to sixteen.  Letters stand for the digits from ten
on, in either case.
-/

set_option autoImplicit false

namespace ResourceDelta.Text

/-- The value of a digit. -/
def digit? (c : Char) : Option Nat :=
  if '0' ≤ c ∧ c ≤ '9' then some (c.toNat - '0'.toNat)
  else if 'a' ≤ c ∧ c ≤ 'f' then some (c.toNat - 'a'.toNat + 10)
  else if 'A' ≤ c ∧ c ≤ 'F' then some (c.toNat - 'A'.toNat + 10)
  else none

/-- The number that digits of a base stand for; no digits stand for no number. -/
def number? (base : Nat) (digits : List Char) : Option Nat :=
  if digits.isEmpty then none
  else
    digits.foldlM (fun n c => do
      let d ← digit? c
      guard (d < base)
      return n * base + d) 0

/-- The greatest number that a word of 64 bits holds. -/
def maxWord : Nat := Nat.pow 2 64 - 1

end ResourceDelta.Text
