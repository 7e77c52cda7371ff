import TodoAudit.CommandLine.Run
import TodoAudit.Proofs.Calendar.Writing
import TodoAudit.Proofs.Json.Writing

/-!
# Reading a JSON report

What a report shows as JSON is read back in two steps, neither of which knows how the report is
written: the grammar of JSON says which document the text is, and the todos are taken from the
fields of the elements of that document (`Todo.ofDocument?`). The first step has one result only,
and the second gives the todos of the report, in their order (`Request.show_json_readable`).
`IsJsonListOf` says this of any text.
-/

namespace TodoAudit

open Text Json

/-! ## Todos from documents -/

namespace Json.Document

/-- The value of the first field with the key. -/
def field? (key : String) : Document → Option Document
  | .object fields => fields.lookup key.toList
  | _ => none

/-- The number that the document is, if it is written with nothing but digits. -/
def natural? : Document → Option Nat
  | .number numeral => if numeral.all Decimal.isDigit then some (Decimal.value numeral) else none
  | _ => none

/-- The date that the document is. It can also say that there is no date. -/
def date? : Document → Option (Option Date)
  | .null => some none
  | .string s => (Date.ofChars? s).map some
  | _ => none

end Json.Document

/-- The todo that the fields of an object describe. -/
def Todo.ofDocument? (v : Document) : Option Todo := do
  let assignee ← (← v.field? "assignee").text?
  let dueDate ← (← v.field? "dueDate").date?
  let filePath ← (← v.field? "filePath").text?
  let line ← (← v.field? "line").natural?
  let column ← (← v.field? "column").natural?
  return { assignee, dueDate, filePath, line, column }

/-! ## Todos as they are written -/

theorem Json.Document.natural?_numeral (n : Nat) : (number (numeral n)).natural? = some n := by
  have hdigits : (Decimal.digits n).all Decimal.isDigit = true :=
    List.all_eq_true.2 fun c => Decimal.isDigit_of_mem_digits
  have hnumeral : numeral n = Decimal.digits n := by
    simp [numeral]
  rw [natural?, hnumeral, if_pos hdigits, Decimal.value_digits]

/-- The document that a date is, if there is one. -/
def dateDocument : Option Date → Document
  | some d => .string d.chars
  | none => .null

theorem date?_dateDocument (d : Option Date) : (dateDocument d).date? = some d := by
  cases d with
  | none => rfl
  | some d => simp [dateDocument, Document.date?, Date.ofChars?_chars]

/-- The object that a todo is: it has these fields and no other ones. -/
def Todo.document (t : Todo) : Document :=
  .object
    [("assignee".toList, .ofText t.assignee), ("dueDate".toList, dateDocument t.dueDate),
      ("filePath".toList, .ofText t.filePath), ("line".toList, .number (numeral t.line)),
      ("column".toList, .number (numeral t.column))]

/-- A todo is read back from the fields of its object. -/
theorem Todo.ofDocument?_document (t : Todo) : Todo.ofDocument? t.document = some t := by
  simp [Todo.ofDocument?, Todo.document, Document.field?, List.lookup, date?_dateDocument,
    Document.natural?_numeral]

theorem mapM_ofDocument?_document (todos : List Todo) :
    (todos.map Todo.document).mapM Todo.ofDocument? = some todos := by
  induction todos with
  | nil => rfl
  | cons t todos ih => simp [Todo.ofDocument?_document, ih]

namespace CommandLine

/-- The text is the JSON list of the todos. It is a written form of the list of their objects and of
no other document, and the todos are read back from it, all of them and in their order. -/
structure IsJsonListOf (text : String) (todos : List Todo) : Prop where
  isWritten_iff : ∀ v : Document, v.IsWritten text.toList ↔ v = .list (todos.map Todo.document)
  read_back : ∀ elements : List Document, (Document.list elements).IsWritten text.toList →
    elements.mapM Todo.ofDocument? = some todos

theorem document_todoValue (t : Todo) : (todoValue t).document = t.document := by
  obtain ⟨assignee, dueDate, filePath, line, column⟩ := t
  cases dueDate <;> rfl

/-- What is shown is the list of the todos and no other document, the line break included. -/
theorem isWritten_todosJson_iff (todos : List Todo) (v : Document) :
    v.IsWritten (asLine (todosJson todos)).toList ↔ v = .list (todos.map Todo.document) := by
  have hdocument : (Value.list (todos.map todoValue)).document =
      .list (todos.map Todo.document) := by
    rw [Value.document, Value.elementDocuments_eq_map, List.map_map]
    exact congrArg Document.list (List.map_congr_left fun t _ => document_todoValue t)
  have hwritten := (Value.list (todos.map todoValue)).isWritten_write 0
    (.cons (by decide) (.refl []) : Blanks ['\n'] [])
  rw [hdocument] at hwritten
  have htext : (asLine (todosJson todos)).toList =
      (Value.list (todos.map todoValue)).write 0 ++ ['\n'] := by
    simp [asLine, todosJson]
  rw [htext]
  constructor
  · intro h
    exact h.unique hwritten
  · rintro rfl
    exact hwritten

theorem isJsonListOf_todosJson (todos : List Todo) :
    IsJsonListOf (asLine (todosJson todos)) todos where
  isWritten_iff := isWritten_todosJson_iff todos
  read_back := by
    intro elements h
    rw [isWritten_todosJson_iff, Document.list.injEq] at h
    rw [h, mapM_ofDocument?_document]

/-- A text is the JSON list of one list of todos only. -/
theorem IsJsonListOf.unique {text : String} {todos todos' : List Todo}
    (h : IsJsonListOf text todos) (h' : IsJsonListOf text todos') : todos = todos' := by
  have hwritten := (h.isWritten_iff _).2 rfl
  exact Option.some.inj ((h.read_back _ hwritten).symm.trans (h'.read_back _ hwritten))

variable {r : Request}

/-- A report that is shown as JSON loses nothing. What is shown is the text of a JSON list and of no
other document, and its elements describe the reported todos one by one, so that reports on
different todos are shown differently. -/
theorem Request.show_json_readable (hjson : r.json = true) (colors : Bool) (mode : ReportMode)
    (report : Report) :
    (∃ elements : List Document,
      (∀ v : Document, v.IsWritten (r.show colors mode report).toList ↔ v = .list elements) ∧
        elements.mapM Todo.ofDocument? = some report.reported) ∧
      ∀ report' : Report, r.show colors mode report = r.show colors mode report' →
        report.reported = report'.reported := by
  have hlist : ∀ report, IsJsonListOf (r.show colors mode report) report.reported := by
    intro report
    rw [Request.show, if_pos hjson]
    exact isJsonListOf_todosJson report.reported
  refine ⟨⟨_, (hlist report).isWritten_iff, mapM_ofDocument?_document report.reported⟩, ?_⟩
  intro report' h
  exact (hlist report).unique (h ▸ hlist report')

/-- Quotes, backslashes and control characters in names, and a date before year zero. -/
theorem Request.show_json_readable_awkward :
    ∃ (r : Request) (report : Report), r.json = true ∧
      report.reported =
        [⟨"a\"\\\x01", some ⟨-5, 2, 28, by decide, by decide, by decide⟩, "é\n/", 10, 7⟩,
          ⟨"", none, "\t", 1, 1⟩] ∧
      r.show false .verify report =
        "[\n  \x7b\n    \"assignee\": \"a\\\"\\\\\\u0001\",\n" ++
        "    \"dueDate\": \"-0005-02-28\",\n    \"filePath\": \"é\\n/\",\n" ++
        "    \"line\": 10,\n    \"column\": 7\n  \x7d,\n" ++
        "  \x7b\n    \"assignee\": \"\",\n    \"dueDate\": null,\n    \"filePath\": \"\\t\",\n" ++
        "    \"line\": 1,\n    \"column\": 1\n  \x7d\n]\n" ∧
      ∃ elements : List Document,
        (∀ v : Document, v.IsWritten (r.show false .verify report).toList ↔ v = .list elements) ∧
          elements.mapM Todo.ofDocument? = some report.reported := by
  let r : Request := { json := true, command := .verify }
  let report : Report :=
    ⟨[⟨"a\"\\\x01", some ⟨-5, 2, 28, by decide, by decide, by decide⟩, "é\n/", 10, 7⟩,
      ⟨"", none, "\t", 1, 1⟩], .success⟩
  refine ⟨r, report, rfl, rfl, ?_, (Request.show_json_readable rfl false .verify report).1⟩
  cbv

end CommandLine

end TodoAudit
