import TodoAudit.Text.Basic
import TodoAudit.Text.Decimal

/-!
# The calendar

Dates of the proleptic Gregorian calendar, which has a year zero. A date can also be given as a day
of its year, and every date falls on a day of the week. The calendar ends at the years `minYear` and
`maxYear`. Dates are written `2024-02-29`; a year beyond 9999 has a sign, and a year before zero has
a minus sign and at least four digits.
-/

namespace TodoAudit

open Text

/-! ## Months and weekdays -/

/-- A year with a 29th of February. -/
def IsLeap (year : Int) : Prop :=
  year % 4 = 0 ∧ (year % 100 ≠ 0 ∨ year % 400 = 0)

instance (year : Int) : Decidable (IsLeap year) :=
  inferInstanceAs (Decidable (_ ∧ _))

/-- The number of days of a month of the year. -/
def daysInMonth (year : Int) (month : Nat) : Nat :=
  if month = 2 then if IsLeap year then 29 else 28
  else if month ∈ [4, 6, 9, 11] then 30
  else 31

/-- The number of days of the year that lie before its month `month`. -/
def daysBeforeMonth (year : Int) : (month : Nat) → Nat
  | 0 | 1 => 0
  | month + 2 => daysBeforeMonth year (month + 1) + daysInMonth year (month + 1)

/-- The English names of the months, January first. -/
def monthNames : List (List Char) :=
  ["January", "February", "March", "April", "May", "June", "July", "August", "September",
    "October", "November", "December"].map String.toList

/-- A day of the week. -/
inductive Weekday where
  | monday | tuesday | wednesday | thursday | friday | saturday | sunday
deriving DecidableEq, Repr

/-- The days of the week in order. -/
def Weekday.all : List Weekday :=
  [.monday, .tuesday, .wednesday, .thursday, .friday, .saturday, .sunday]

/-- The English name of the day. -/
def Weekday.name (w : Weekday) : List Char :=
  match w with
  | .monday => "Monday".toList
  | .tuesday => "Tuesday".toList
  | .wednesday => "Wednesday".toList
  | .thursday => "Thursday".toList
  | .friday => "Friday".toList
  | .saturday => "Saturday".toList
  | .sunday => "Sunday".toList

/-! ## Dates -/

/-- The first year of the calendar. -/
def minYear : Int := -262143

/-- The last year of the calendar. -/
def maxYear : Int := 262142

/-- A day of the calendar. -/
@[ext] structure Date where
  year : Int
  month : Nat
  day : Nat
  year_mem : minYear ≤ year ∧ year ≤ maxYear
  month_mem : 1 ≤ month ∧ month ≤ 12
  day_mem : 1 ≤ day ∧ day ≤ daysInMonth year month
deriving DecidableEq

namespace Date

/-- The date with this year, month and day, if the calendar has one. -/
def ofYearMonthDay? (year : Int) (month day : Nat) : Option Date :=
  if h : (minYear ≤ year ∧ year ≤ maxYear) ∧ (1 ≤ month ∧ month ≤ 12) ∧
      1 ≤ day ∧ day ≤ daysInMonth year month then
    some ⟨year, month, day, h.1, h.2.1, h.2.2⟩
  else none

/-- Which day of its year the date is, the first of January being day one. -/
def dayOfYear (d : Date) : Nat :=
  daysBeforeMonth d.year d.month + d.day

/-- The date that is day `n` of the year, if the year has so many days. -/
def ofDayOfYear? (year : Int) (n : Nat) : Option Date :=
  (List.range' 1 12).findSome? fun month =>
    ofYearMonthDay? year month (n - daysBeforeMonth year month)

/-- The number of days from the last of December of year zero to the date. -/
def dayNumber (d : Date) : Int :=
  let y := d.year - 1
  365 * y + y / 4 - y / 100 + y / 400 + d.dayOfYear

/-- The day of the week. The first of January of year one is a Monday. -/
def weekday (d : Date) : Weekday :=
  match ((d.dayNumber - 1) % 7).toNat with
  | 0 => .monday
  | 1 => .tuesday
  | 2 => .wednesday
  | 3 => .thursday
  | 4 => .friday
  | 5 => .saturday
  | _ => .sunday

/-! ## Order -/

/-- Earlier in the calendar. -/
def Before (a b : Date) : Prop :=
  a.year < b.year ∨ a.year = b.year ∧ (a.month < b.month ∨ a.month = b.month ∧ a.day < b.day)

instance : LT Date := ⟨Before⟩

instance (a b : Date) : Decidable (a < b) :=
  inferInstanceAs (Decidable (_ ∨ _))

theorem lt_iff {a b : Date} :
    a < b ↔ a.year < b.year ∨
      a.year = b.year ∧ (a.month < b.month ∨ a.month = b.month ∧ a.day < b.day) :=
  Iff.rfl

/-! ## Text -/

/-- The year as it is written in a date. -/
def yearText (year : Int) : List Char :=
  if year < 0 then '-' :: Decimal.padded 4 year.natAbs
  else if year ≤ 9999 then Decimal.padded 4 year.natAbs
  else '+' :: Decimal.digits year.natAbs

/-- The written form of the date. -/
def chars (d : Date) : List Char :=
  yearText d.year ++ '-' :: Decimal.padded 2 d.month ++ '-' :: Decimal.padded 2 d.day

instance : ToString Date where
  toString d := String.ofList d.chars

/-- Reads the date whose written form is the text. -/
def ofChars? (s : List Char) : Option Date := do
  let (sign, unsigned) := match s with
    | '-' :: rest => ((-1 : Int), rest)
    | '+' :: rest => (1, rest)
    | rest => (1, rest)
  let (year, rest) ← cutAt? ['-'] unsigned
  let (month, day) ← cutAt? ['-'] rest
  let d ← ofYearMonthDay? (sign * Decimal.value year) (Decimal.value month) (Decimal.value day)
  if d.chars = s then some d else none

end Date

end TodoAudit
