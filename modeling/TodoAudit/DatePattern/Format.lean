import TodoAudit.DatePattern.Field
import TodoAudit.Text.Blank
import TodoAudit.Text.Quoted

/-!
# Date formats

A date format is a pattern that can be used: every run of letters in it is a field, and the fields
fix a date. A text is read as a date if it is made of the pieces of the format in their order, with
nothing left over, and if there is a day of the calendar for which all that it states is true.
-/

namespace TodoAudit

open Text DatePattern

/-! ## Patterns that can be used -/

/-- A part of a format. -/
inductive Piece where
  /-- A fact about the date. -/
  | field (f : Field)
  /-- Text that stands for itself. -/
  | text (t : List Char)
deriving DecidableEq, Repr

/-- Why a pattern cannot be used. -/
inductive PatternFault where
  /-- There is nothing in it but blanks. -/
  | blank
  /-- A quote is never closed. The text begins at that quote. -/
  | unclosedQuote (rest : List Char)
  /-- A run of letters stands for no field. -/
  | unsupported (letter : Char) (count : Nat)
  /-- The fields fix no date. -/
  | notWholeDate
deriving DecidableEq, Repr

/-- The fault in words. -/
def PatternFault.message : PatternFault → String
  | .blank => "the pattern is empty"
  | .unclosedQuote rest =>
    "Parsing Error: Error \x7b input: " ++ String.ofList (Quoted.encode rest) ++ ", code: Eof \x7d"
  | .unsupported letter count =>
    "unsupported pattern letters '" ++ String.ofList (List.replicate count letter) ++ "'"
  | .notWholeDate => "the pattern does not describe a whole date"

/-- A pattern with the pieces it is made of. -/
structure DateFormat where
  pattern : List Char
  pieces : List Piece
deriving DecidableEq, Repr

/-- What an item of a pattern asks for. -/
def Piece.ofItem : Item → Except PatternFault Piece
  | .field letter count =>
    match Field.ofRun? letter count with
    | some f => .ok (.field f)
    | none => .error (.unsupported letter count)
  | .literal t => .ok (.text t)
  | .quote => .ok (.text ['\''])

/-- The fields among the pieces. -/
def fieldsOf (pieces : List Piece) : List Field :=
  pieces.filterMap fun
    | .field f => some f
    | .text _ => none

/-- Fields that fix a date: a year, and in it a day, by the month or by the year. -/
def FixDate (fields : List Field) : Prop :=
  fields.any Field.isYear ∧
    (fields.any Field.isMonth ∧ fields.any Field.isDay ∨ fields.any Field.isDayOfYear)

instance (fields : List Field) : Decidable (FixDate fields) :=
  inferInstanceAs (Decidable (_ ∧ _))

namespace DateFormat

/-- The format that a pattern describes. -/
def ofPattern (pattern : List Char) : Except PatternFault DateFormat := do
  if (trim pattern).isEmpty then throw .blank
  let items ← (Item.all pattern).mapError fun refusal => .unclosedQuote refusal.rest
  let pieces ← items.mapM Piece.ofItem
  unless FixDate (fieldsOf pieces) do throw .notWholeDate
  return ⟨pattern, pieces⟩

/-- How many characters behind a due phrase are looked at: as many as the pattern has, and one more
for the blank that usually comes first. -/
def window (format : DateFormat) : Nat :=
  format.pattern.length + 1

/-! ## Reading a date -/

/-- What a text states that is made of the pieces, with nothing left over. -/
def factsOf? : List Piece → List Char → Option (List Fact)
  | [], s => if s = [] then some [] else none
  | .text t :: pieces, s => do factsOf? pieces (← strip? t s)
  | .field f :: pieces, s => do
    let (fact, rest) ← f.read? s
    return fact :: (← factsOf? pieces rest)

/-- The date that the first facts of each kind fix. -/
def candidate? (facts : List Fact) : Option Date := do
  let year ← facts.findSome? Fact.year?
  match facts.findSome? Fact.month?, facts.findSome? Fact.day? with
  | some month, some day => Date.ofYearMonthDay? year month day
  | _, _ => Date.ofDayOfYear? year (← facts.findSome? Fact.dayOfYear?)

/-- The date for which all the facts are true. -/
def dateOf? (facts : List Fact) : Option Date :=
  (candidate? facts).filter fun d => facts.all fun fact => fact.Holds d

/-- The date that the text states, if it fits the format exactly and there is such a day. -/
def read? (format : DateFormat) (s : List Char) : Option Date := do
  dateOf? (← factsOf? format.pieces s)

end DateFormat

end TodoAudit
