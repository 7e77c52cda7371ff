import TodoAudit.Json.Fault

/-!
# JSON numbers

A number is whole if it has neither point nor exponent and fits a 64-bit word. Any other number is
kept as a binary fraction: the digits that fit a 64-bit word, as the nearest fraction, times or over
a power of ten. Digits beyond those count only for the size of the number.
-/

namespace TodoAudit.Json.Number

open Text

/-- The greatest number of a 64-bit word. -/
def maxWord : Nat := Nat.pow 2 64 - 1

/-- Appends digits to a number as long as it fits a word. Gives the digits left over. -/
def append (n : Nat) : List Char → Nat × List Char
  | [] => (n, [])
  | c :: s =>
    if 10 * n + Decimal.digitValue c ≤ maxWord then append (10 * n + Decimal.digitValue c) s
    else (n, c :: s)

/-- The fraction nearest to a power of ten. -/
def powerOfTen (n : Nat) : Float :=
  Float.ofScientific 1 false n

/-- Divides by a power of ten, in steps of the greatest one that there is. -/
def scaleDown (x : Float) (n : Nat) : Float :=
  if n ≤ 308 then x / powerOfTen n
  else if x == 0 then x
  else scaleDown (x / powerOfTen 308) (n - 308)
termination_by n

/-- The fraction for `significand * 10 ^ exponent`, if it is in range. -/
def scaled? (significand : Nat) (exponent : Int) : Option Float :=
  let x := significand.toUInt64.toFloat
  if exponent < 0 then some (scaleDown x exponent.natAbs)
  else if exponent ≤ 308 then
    let y := x * powerOfTen exponent.natAbs
    if y.isInf then none else some y
  else if significand = 0 then some x
  else none

/-- The digits at the beginning of a text, and the rest. -/
def digits (s : List Char) : List Char × List Char :=
  (s.takeWhile Decimal.isDigit, s.dropWhile Decimal.isDigit)

/-- The digits behind a point, if there is a point. -/
def fractionDigits (s : List Char) : Except Fault (Option (List Char) × List Char) :=
  match s with
  | '.' :: s =>
    match digits s with
    | ([], []) => .error (.unfinished .value)
    | ([], _) => .error (.malformed .invalidNumber)
    | (ds, rest) => .ok (some ds, rest)
  | s => .ok (none, s)

/-- The exponent of ten, if there is one. -/
def exponent? (s : List Char) : Except Fault (Option Int) :=
  match s with
  | c :: s =>
    if c = 'e' ∨ c = 'E' then
      let (negative, s) := match s with
        | '-' :: s => (true, s)
        | '+' :: s => (false, s)
        | s => (false, s)
      match digits s with
      | ([], []) => .error (.unfinished .value)
      | ([], _) => .error (.malformed .invalidNumber)
      | (ds, _) =>
        .ok (some (if negative then -(Decimal.value ds : Int) else (Decimal.value ds : Int)))
    else .ok none
  | [] => .ok none

/-- The digits before the point. No other digit follows a leading zero. -/
def wholeDigits (s : List Char) : Except Fault (List Char × List Char) :=
  match digits s with
  | ([], []) => .error (.unfinished .value)
  | ([], _) => .error (.malformed .invalidNumber)
  | ('0' :: _ :: _, _) => .error (.malformed .invalidNumber)
  | (ds, rest) => .ok (ds, rest)

/-- The number with this sign, these digits before and behind the point, and this exponent. -/
def ofDigits (negative : Bool) (before : List Char) (behind : Option (List Char))
    (exponent : Option Int) : Except Fault Number :=
  let (n, dropped) := append 0 before
  let isWhole := behind.isNone && exponent.isNone && dropped.isEmpty
  if isWhole && !(negative && (n = 0 || Nat.pow 2 63 < n)) then
    .ok (.whole (if negative then -(n : Int) else n))
  else
    let ds := behind.getD []
    let (m, left) := append n ds
    let places : Int := dropped.length - (ds.length - left.length : Nat) + exponent.getD 0
    match scaled? m places with
    | some x => .ok (.fraction (if negative then -x else x))
    | none => .error (.malformed .numberOutOfRange)

/-- The number at the beginning of a text. -/
def read (s : List Char) : Except Fault Number := do
  let (negative, s) := match s with
    | '-' :: s => (true, s)
    | s => (false, s)
  let (before, s) ← wholeDigits s
  let (behind, s) ← fractionDigits s
  ofDigits negative before behind (← exponent? s)

end TodoAudit.Json.Number
