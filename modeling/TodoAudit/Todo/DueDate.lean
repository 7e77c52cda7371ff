import TodoAudit.DatePattern.Format

/-!
# Due dates

A due phrase announces a due date. Of the phrases that occur in a comment, the one listed first
counts, where it occurs first; later phrases are not tried, even if no date follows. What follows it
is cut to the window of the date format and trimmed before it is read.
-/

namespace TodoAudit

open Text

/-- What a comment says about when it is due. -/
inductive DueDate where
  /-- No due phrase occurs. -/
  | missing
  /-- The text behind the due phrase is no date. -/
  | unreadable (phrase text : List Char)
  /-- The date behind the due phrase. -/
  | date (d : Date)
deriving DecidableEq

namespace DueDate

/-- The date, if there is one. -/
def toDate? : DueDate → Option Date
  | .date d => some d
  | _ => none

/-- The first of the phrases that occurs in the comment, with what follows its first occurrence. -/
def announcement? (phrases : List (List Char)) (comment : List Char) :
    Option (List Char × List Char) :=
  phrases.findSome? fun phrase => (cutAt? phrase comment).map fun (_, after) => (phrase, after)

/-- Reads the due date of a comment. -/
def ofComment (phrases : List (List Char)) (format : DateFormat) (comment : List Char) : DueDate :=
  match announcement? phrases comment with
  | none => .missing
  | some (phrase, after) =>
    let text := trim (after.take format.window)
    match format.read? text with
    | some d => .date d
    | none => .unreadable phrase text

end DueDate

end TodoAudit
