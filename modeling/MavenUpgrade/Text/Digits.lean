/-!
# Numbers written in digits

The value of digits in a base up to sixteen, and of whole numbers below a limit.
-/

namespace MavenUpgrade.Text

/-- The value of a digit in a base up to sixteen. -/
def digitValue? (base : Nat) (c : Char) : Option Nat :=
  let n := c.toNat
  let value? :=
    if c.isDigit then some (n - '0'.toNat)
    else if 'a' ≤ c ∧ c ≤ 'f' then some (n - 'a'.toNat + 10)
    else if 'A' ≤ c ∧ c ≤ 'F' then some (n - 'A'.toNat + 10)
    else none
  value?.filter (· < base)

/-- The number that digits write; there must be one digit at least. -/
def digitsValue? (base : Nat) (digits : List Char) : Option Nat :=
  if digits.isEmpty then none
  else digits.foldlM (fun n c => (digitValue? base c).map (base * n + ·)) 0

/-- The numbers that fit in a machine word are those below this one. -/
def wordLimit : Nat := 0x10000000000000000

/-- The number that decimal digits, with or without a plus sign before them, write, if it fits in
a machine word. -/
def wholeNumber? (text : List Char) : Option Nat :=
  let digits := match text with
    | '+' :: rest => rest
    | _ => text
  (digitsValue? 10 digits).filter (· < wordLimit)

end MavenUpgrade.Text
