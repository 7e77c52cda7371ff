import TodoAudit.Calendar

/-!
# Todos

A todo is what is kept of a todo comment: who is to solve it, by when, and where it stands.
-/

namespace TodoAudit

/-- A todo found in a source file. Line and column count from one. -/
structure Todo where
  assignee : String
  dueDate : Option Date
  filePath : String
  line : Nat
  column : Nat
deriving DecidableEq

namespace Todo

/-- The assignee of a todo that mentions no one. -/
def unassigned : String := "unassigned"

/-- Where the todo stands, as `path:line:column`. -/
def location (t : Todo) : String :=
  t.filePath ++ ":" ++ toString t.line ++ ":" ++ toString t.column

end Todo

end TodoAudit
