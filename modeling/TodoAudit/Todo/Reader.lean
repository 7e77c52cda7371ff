import TodoAudit.Comment
import TodoAudit.Text.Position
import TodoAudit.Todo.Basic
import TodoAudit.Todo.DueDate
import TodoAudit.Todo.Mention

/-!
# Reading todos

Three rules say how todos are read: which phrases announce a due date, how dates are written, and
which symbol stands before the name of an assignee. A `TodoReader` holds rules that can be followed.
It turns the text of a file into the todos of the file, in their order.
-/

namespace TodoAudit

open Text

/-- How assignees and due dates are written. -/
structure ReadingRules where
  /-- The phrases that announce a due date, in the order in which they are tried. -/
  duePhrases : List String := ["due to"]
  /-- The date pattern. -/
  dateFormat : String := "dd.MM.yyyy"
  /-- The symbol before the name of an assignee. -/
  mentionSymbol : String := "@"
deriving DecidableEq, Repr

/-- Why rules cannot be followed. -/
inductive RuleFault where
  /-- The mention symbol is empty. -/
  | emptyMentionSymbol
  /-- The date pattern describes no date. -/
  | dateFormat (pattern : String) (fault : PatternFault)
deriving DecidableEq, Repr

/-- Rules in a form that can be applied to comments. -/
structure TodoReader where
  phrases : List (List Char)
  format : DateFormat
  symbol : List Char

namespace TodoReader

/-- The reader that follows the rules. The mention symbol is looked at before the date pattern. -/
def ofRules (rules : ReadingRules) : Except RuleFault TodoReader := do
  if rules.mentionSymbol.toList = [] then throw .emptyMentionSymbol
  let format ← (DateFormat.ofPattern rules.dateFormat.toList).mapError
    (.dateFormat rules.dateFormat)
  return ⟨rules.duePhrases.map String.toList, format, rules.mentionSymbol.toList⟩

/-- Who is to solve the todo of a comment. -/
def assignee (r : TodoReader) (comment : List Char) : String :=
  match assignee? r.symbol comment with
  | some name => String.ofList name
  | none => Todo.unassigned

/-- When the todo of a comment is due. -/
def dueDate (r : TodoReader) (comment : List Char) : DueDate :=
  .ofComment r.phrases r.format comment

/-- The todo of one comment in the text of a file. -/
def todo (r : TodoReader) (file : String) (text : List Char) (c : Comment) : Todo :=
  let place := Position.ofOffset text c.offset
  { assignee := r.assignee c.text
    dueDate := (r.dueDate c.text).toDate?
    filePath := file
    line := place.line
    column := place.column }

/-- The todos of a file, in the order of their comments. -/
def todos (r : TodoReader) (file : String) (text : List Char) : List Todo :=
  (Comment.todos text).map (r.todo file text)

/-- The remark about a comment with a due phrase but no date. -/
def remark? (r : TodoReader) (file : String) (text : List Char) (c : Comment) : Option String :=
  match r.dueDate c.text with
  | .unreadable phrase found =>
    some ((r.todo file text c).location ++ ": '" ++ String.ofList found ++ "' after '" ++
      String.ofList phrase ++ "' is not a date like '" ++ String.ofList r.format.pattern ++ "'")
  | _ => none

/-- The remarks about the comments of a file. -/
def remarks (r : TodoReader) (file : String) (text : List Char) : List String :=
  (Comment.todos text).filterMap (r.remark? file text)

end TodoReader

/-- Whether the rules can be followed. -/
def ReadingRules.check (rules : ReadingRules) : Except RuleFault Unit :=
  (TodoReader.ofRules rules).map fun _ => ()

end TodoAudit
