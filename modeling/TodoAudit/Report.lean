import TodoAudit.Todo.Basic

/-!
# Reports

A report looks at the todos of a scan in one of two modes. The list mode lists those with a due
date, one for each day, in the order of the written dates, and can be limited to one assignee and to
what is overdue. The verify mode objects to every todo without a due date. A report fails if there
is something overdue, or something to object to.
-/

namespace TodoAudit

/-- Whether the earliest or the latest due date comes first. -/
inductive SortDirection where
  | ascending
  | descending
deriving DecidableEq, Repr

/-- How a report ended. -/
inductive Outcome where
  | success
  /-- The report failed because of these todos. -/
  | failure (reason : String) (todos : List Todo)
deriving DecidableEq

/-- The todos that were reported, in the order of their lines, and how the report ended. -/
structure Report where
  reported : List Todo
  outcome : Outcome
deriving DecidableEq

/-- A number of todos in words. -/
def countTodos (n : Nat) : String :=
  if n = 1 then "1 TODO" else toString n ++ " TODOs"

/-! ## Listing by due date -/

/-- What is listed, and in which order. -/
structure ListMode where
  /-- The only assignee whose todos are listed. -/
  assignee : Option String := none
  direction : SortDirection := .descending
  /-- Whether to list only what was due before today, and to fail if there is any. -/
  overdueOnly : Bool := false
  today : Date

namespace ListMode

/-- Whether the mode is interested in the todo. -/
def accepts (m : ListMode) (t : Todo) : Bool :=
  t.dueDate.isSome && m.assignee.all (· == t.assignee)

/-- The written due date of a todo. -/
def dueText (t : Todo) : List Char :=
  (t.dueDate.map Date.chars).getD []

/-- The line about a todo. -/
def line (t : Todo) : String :=
  "Found " ++ t.assignee ++ " TODO in " ++ t.location ++ " with a due date of " ++
    String.ofList (dueText t) ++ "."

/-- Puts a todo into a list that is ordered by written due date, in place of one with the same. -/
def insert (t : Todo) : List Todo → List Todo
  | [] => [t]
  | u :: us =>
    if dueText t < dueText u then t :: u :: us
    else if dueText t = dueText u then t :: us
    else u :: insert t us

/-- The todos with a due date, one for each, ordered by written due date. Of several with the same
due date it is the last that stays. -/
def byDueDate (todos : List Todo) : List Todo :=
  (todos.filter fun t => t.dueDate.isSome).foldl (fun sorted t => insert t sorted) []

/-- Whether the todo was due before today. -/
def isOverdue (m : ListMode) (t : Todo) : Bool :=
  t.dueDate.any fun d => d < m.today

/-- The todos that are listed, in the order of the report. -/
def listed (m : ListMode) (todos : List Todo) : List Todo :=
  let sorted := match m.direction with
    | .ascending => byDueDate todos
    | .descending => (byDueDate todos).reverse
  if m.overdueOnly then sorted.filter m.isOverdue else sorted

/-- Lists todos. -/
def report (m : ListMode) (todos : List Todo) : Report where
  reported := m.listed todos
  outcome :=
    if m.overdueOnly && !(m.listed todos).isEmpty then
      .failure ("Found " ++ countTodos (m.listed todos).length ++
        " with due dates in the past. TIME TO SOLVE IT!") (m.listed todos)
    else .success

end ListMode

/-! ## Verifying that there is a due date -/

namespace VerifyMode

/-- Whether the todo is objected to. -/
def accepts (t : Todo) : Bool :=
  t.dueDate.isNone

/-- The line about a todo. -/
def line (t : Todo) : String :=
  "Found " ++ t.assignee ++ " TODO in " ++ t.location ++ " without a valid due date."

/-- Whose todo stands where. -/
def whereabouts (t : Todo) : String :=
  if t.assignee = Todo.unassigned then t.location else t.assignee ++ " at " ++ t.location

/-- Objects to all of the todos. -/
def report (todos : List Todo) : Report where
  reported := todos
  outcome :=
    if todos.isEmpty then .success
    else
      .failure ("Found " ++ countTodos todos.length ++ " without a due date (" ++
        ", ".intercalate (todos.map whereabouts) ++
        "). Please check the log for more details.") todos

end VerifyMode

/-! ## Either mode -/

/-- What a report looks for. -/
inductive ReportMode where
  | list (mode : ListMode)
  | verify

namespace ReportMode

/-- Whether the mode is interested in the todo. -/
def accepts : ReportMode → Todo → Bool
  | .list m => m.accepts
  | .verify => VerifyMode.accepts

/-- The line about a todo. -/
def line : ReportMode → Todo → String
  | .list _ => ListMode.line
  | .verify => VerifyMode.line

/-- Reports on todos in which the mode is interested. -/
def report : ReportMode → List Todo → Report
  | .list m => m.report
  | .verify => VerifyMode.report

/-- The todos in which the mode is interested. -/
def filter (m : ReportMode) (todos : List Todo) : List Todo :=
  todos.filter m.accepts

/-- The lines of a report, in their order. -/
def lines (m : ReportMode) (r : Report) : List String :=
  r.reported.map m.line

end ReportMode

end TodoAudit
