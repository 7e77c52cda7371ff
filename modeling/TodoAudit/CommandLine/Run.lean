import TodoAudit.Audit
import TodoAudit.CommandLine.Arguments
import TodoAudit.Json.Value
import TodoAudit.Terminal

/-!
# Running a request

A request is resolved into a configuration and a report mode: what an option says goes before what
the configuration file says, and that before the default, each setting by itself. Then the audit is
carried out and shown, as styled lines or as a JSON list of the todos reported. The exit code is 0
for a success, 1 for a failed report and 2 for an error, and an error shows nothing on the output.
-/

namespace TodoAudit.CommandLine

/-! ## What is to be done -/

namespace Request

/-- The configuration that the file, or else the default, gives. -/
def fileConfig (r : Request) (tree : FileTree) : Except AuditError Config :=
  match r.configFile with
  | some path => Config.ofFile tree path
  | none => Config.ofRoot tree r.root

/-- The extensions asked for, or those of the configuration if none are. -/
def resolveExtensions (r : Request) (configured : List String) :
    Except UnknownLanguage (List String) := do
  if r.extensions.isEmpty && r.languages.isEmpty then return configured
  return Language.addNew r.extensions (← Language.extensionsOf r.languages)

/-- The configuration with what the options say. -/
def config (r : Request) (tree : FileTree) : Except AuditError Config := do
  let given ← r.fileConfig tree
  let extensions ← (r.resolveExtensions given.extensions).mapError .unknownLanguage
  let rules : ReadingRules :=
    { duePhrases := if r.duePhrases.isEmpty then given.rules.duePhrases else r.duePhrases
      dateFormat := r.dateFormat.getD given.rules.dateFormat
      mentionSymbol := r.mentionSymbol.getD given.rules.mentionSymbol }
  rules.check.mapError .rules
  return { rules, extensions }

/-- The report mode of the command. -/
def mode (r : Request) (today : Date) : ReportMode :=
  match r.command with
  | .list assignee direction overdueOnly => .list { assignee, direction, overdueOnly, today }
  | .verify => .verify

end Request

/-! ## What is shown -/

/-- A todo as a JSON object. -/
def todoValue (t : Todo) : Json.Value :=
  .object
    [("assignee".toList, .string t.assignee.toList),
      ("dueDate".toList, match t.dueDate with
        | some d => .string d.chars
        | none => .null),
      ("filePath".toList, .string t.filePath.toList),
      ("line".toList, .number t.line),
      ("column".toList, .number t.column)]

/-- Todos as a JSON text. -/
def todosJson (todos : List Todo) : String :=
  String.ofList ((Json.Value.list (todos.map todoValue)).write 0)

/-- What a run leaves behind. -/
structure Result where
  code : Nat
  output : String
  errors : String
deriving DecidableEq, Repr

/-- Text with the line break at its end. -/
def asLine (s : String) : String :=
  s ++ "\n"

/-- What the report shows on the output. -/
def Request.show (r : Request) (colors : Bool) (mode : ReportMode) (report : Report) : String :=
  if r.json then asLine (todosJson report.reported)
  else String.join (report.reported.map fun t => asLine (Terminal.styled colors t (mode.line t)))

/-- Carries out a request. -/
def Request.run (r : Request) (tree : FileTree) (today : Date) (colors : Bool) : Result :=
  let attempt := do audit tree r.root (← r.config tree) (r.mode today)
  match attempt with
  | .error e => ⟨2, "", asLine (Terminal.paint colors .red e.message)⟩
  | .ok report =>
    let output := r.show colors (r.mode today) report
    match report.outcome with
    | .success => ⟨0, output, ""⟩
    | .failure reason _ => ⟨1, output, asLine (Terminal.paint colors .red reason)⟩

end TodoAudit.CommandLine
