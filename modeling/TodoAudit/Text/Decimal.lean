/-!
# Decimal numerals

Numbers are written in ASCII digits, most significant first, and read back with `value`. A numeral
may be padded with zeros on the left to a least number of digits.
-/

namespace TodoAudit.Text.Decimal

/-- Whether the character is one of the ten ASCII digits. -/
def isDigit (c : Char) : Bool :=
  '0' ≤ c && c ≤ '9'

/-- The number that a single digit stands for. -/
def digitValue (c : Char) : Nat :=
  c.toNat - '0'.toNat

/-- The number that a run of digits stands for. -/
def value (digits : List Char) : Nat :=
  digits.foldl (fun n c => 10 * n + digitValue c) 0

/-- The digits of a number, without leading zeros. -/
def digits (n : Nat) : List Char :=
  Nat.toDigits 10 n

/-- The digits of a number, with zeros in front up to `width` characters. -/
def padded (width n : Nat) : List Char :=
  List.replicate (width - (digits n).length) '0' ++ digits n

/-- Eats as many digits as there are, at most `most` and at least `least`. -/
def run? (least most : Nat) (s : List Char) : Option (List Char × List Char) :=
  let digits := (s.take most).takeWhile isDigit
  if least ≤ digits.length then some (digits, s.drop digits.length) else none

end TodoAudit.Text.Decimal
