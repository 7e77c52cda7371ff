import TodoAudit.Calendar
import TodoAudit.DatePattern.Item

/-!
# Fields of a date pattern

Each field asks for one fact about a date: its year, its month, its day, its day of the year or its
weekday. How often the letter is repeated says how the fact is written. Reading a field gives the
fact that the text states, whether or not any date has it.
-/

namespace TodoAudit.DatePattern

open Text

/-- How one fact about a date is written. A numeric field has at least `least` digits. -/
inductive Field where
  /-- A year in up to nine digits. -/
  | year (least : Nat)
  /-- The last two digits of a year from 2000 to 2099. -/
  | shortYear
  /-- A month as a number of up to two digits. -/
  | month (least : Nat)
  /-- A month by its name, or by the first three letters of it. -/
  | monthName (whole : Bool)
  /-- A day of the month in up to two digits. -/
  | day (least : Nat)
  /-- A day of the year in up to three digits. -/
  | dayOfYear (least : Nat)
  /-- A weekday by its name, or by the first three letters of it. -/
  | weekday (whole : Bool)
deriving DecidableEq, Repr

/-- What a field states about a date. -/
inductive Fact where
  | year (n : Nat)
  | month (n : Nat)
  | day (n : Nat)
  | dayOfYear (n : Nat)
  | weekday (w : Weekday)
deriving DecidableEq, Repr

/-- A date for which the fact is true. -/
def Fact.Holds (d : Date) : Fact → Prop
  | .year n => d.year = n
  | .month n => d.month = n
  | .day n => d.day = n
  | .dayOfYear n => d.dayOfYear = n
  | .weekday w => d.weekday = w

instance (d : Date) : DecidablePred (Fact.Holds d)
  | .year _ | .month _ | .day _ | .dayOfYear _ | .weekday _ => by
    unfold Fact.Holds
    infer_instance

namespace Fact

/-- The year that is stated. -/
def year? : Fact → Option Nat
  | .year n => some n
  | _ => none

/-- The month that is stated. -/
def month? : Fact → Option Nat
  | .month n => some n
  | _ => none

/-- The day of the month that is stated. -/
def day? : Fact → Option Nat
  | .day n => some n
  | _ => none

/-- The day of the year that is stated. -/
def dayOfYear? : Fact → Option Nat
  | .dayOfYear n => some n
  | _ => none

end Fact

namespace Field

/-- The field that a run of one letter stands for. -/
def ofRun? (letter : Char) (count : Nat) : Option Field :=
  if letter ∈ ['y', 'u'] then
    if count = 2 then some .shortYear
    else if 1 ≤ count ∧ count ≤ 9 then some (.year count)
    else none
  else if letter ∈ ['M', 'L'] then
    if count = 1 ∨ count = 2 then some (.month count)
    else if count = 3 then some (.monthName false)
    else if count = 4 then some (.monthName true)
    else none
  else if letter = 'd' then if count = 1 ∨ count = 2 then some (.day count) else none
  else if letter = 'D' then if 1 ≤ count ∧ count ≤ 3 then some (.dayOfYear count) else none
  else if letter = 'E' then
    if 1 ≤ count ∧ count ≤ 3 then some (.weekday false)
    else if count = 4 then some (.weekday true)
    else none
  else none

/-- The name as it is written: all of it, or its first three letters. -/
def written (whole : Bool) (name : List Char) : List Char :=
  if whole then name else name.take 3

/-- The months with their numbers. -/
def months : List (List Char × Nat) :=
  monthNames.zipIdx 1

/-- The weekdays with their names. -/
def weekdays : List (List Char × Weekday) :=
  Weekday.all.map fun w => (w.name, w)

/-- Eats the first name of the table with which the text begins. -/
def readName? {α : Type} (whole : Bool) (names : List (List Char × α)) (s : List Char) :
    Option (α × List Char) :=
  names.findSome? fun (name, value) => (strip? (written whole name) s).map fun rest => (value, rest)

/-- Eats a number of `least` to `most` digits. -/
def readNumber? (least most : Nat) (s : List Char) : Option (Nat × List Char) :=
  (Decimal.run? least most s).map fun (digits, rest) => (Decimal.value digits, rest)

/-- Eats the text of the field, and says what it states. Numbers take as many digits as they may. -/
def read? (s : List Char) : Field → Option (Fact × List Char)
  | .year least => (readNumber? least 9 s).map fun (n, rest) => (.year n, rest)
  | .shortYear => (readNumber? 2 2 s).map fun (n, rest) => (.year (2000 + n), rest)
  | .month least => (readNumber? least 2 s).map fun (n, rest) => (.month n, rest)
  | .monthName whole => (readName? whole months s).map fun (n, rest) => (.month n, rest)
  | .day least => (readNumber? least 2 s).map fun (n, rest) => (.day n, rest)
  | .dayOfYear least => (readNumber? least 3 s).map fun (n, rest) => (.dayOfYear n, rest)
  | .weekday whole => (readName? whole weekdays s).map fun (w, rest) => (.weekday w, rest)

/-- A field that fixes the year. -/
def isYear : Field → Bool
  | .year _ | .shortYear => true
  | _ => false

/-- A field that fixes the month. -/
def isMonth : Field → Bool
  | .month _ | .monthName _ => true
  | _ => false

/-- A field that fixes the day of the month. -/
def isDay : Field → Bool
  | .day _ => true
  | _ => false

/-- A field that fixes the day of the year. -/
def isDayOfYear : Field → Bool
  | .dayOfYear _ => true
  | _ => false

end Field

end TodoAudit.DatePattern
