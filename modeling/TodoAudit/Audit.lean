import TodoAudit.Config.Settings
import TodoAudit.Report
import TodoAudit.SourceTree.Walk

/-!
# Audits

An audit scans the source files of a file tree for todos and reports on them. It fails as a whole:
first if the rules cannot be followed, then if the tree cannot be walked, then if a source file
cannot be read. There are no partial results.
-/

namespace TodoAudit

/-- Why an audit could not be carried out. -/
inductive AuditError where
  | unreadableFile (path : String) (fault : FileFault)
  | walk (fault : WalkFault)
  | unreadableConfig (path : String) (fault : FileFault)
  | configSyntax (path : String) (fault : Json.Fault)
  | rules (fault : RuleFault)
  | unknownLanguage (language : UnknownLanguage)

namespace AuditError

/-- The error in words. -/
def message : AuditError → String
  | .unreadableFile path fault => "Failed to read file " ++ path ++ ": " ++ fault.message
  | .walk fault => "Could not walk the source tree: " ++ fault.message
  | .unreadableConfig path fault => "Could not read config " ++ path ++ ": " ++ fault.message
  | .configSyntax path fault => "Could not parse config " ++ path ++ ": " ++ fault.message
  | .rules .emptyMentionSymbol => "The mention symbol must not be empty"
  | .rules (.dateFormat pattern fault) =>
    "Invalid date format '" ++ pattern ++ "': " ++ fault.message
  | .unknownLanguage language => "Unknown language '" ++ language.name ++ "'"

end AuditError

/-! ## Scanning -/

/-- The todos of a source file, which has to be read as text for that. -/
def TodoReader.todosOf (r : TodoReader) (f : FoundFile) : Except AuditError (List Todo) := do
  let text ← f.contents.text.mapError (.unreadableFile f.path)
  return r.todos f.path text.toList

/-- The todos of the source files below a root, file by file in the order of the walk. -/
def scan (tree : FileTree) (root : String) (config : Config) : Except AuditError (List Todo) := do
  let reader ← (TodoReader.ofRules config.rules).mapError .rules
  let files ← (tree.find root config.extensions).mapError .walk
  return (← files.mapM reader.todosOf).flatten

/-- Scans and reports. -/
def audit (tree : FileTree) (root : String) (config : Config) (mode : ReportMode) :
    Except AuditError Report := do
  let todos ← scan tree root config
  return mode.report (mode.filter todos)

/-! ## Configuration files -/

namespace Config

/-- Reads a configuration file. -/
def ofFile (tree : FileTree) (path : String) : Except AuditError Config := do
  let text ← (tree.readText path).mapError (.unreadableConfig path)
  (ofJson text).mapError (.configSyntax path)

/-- Reads the configuration file where a scan begins, if there is one. -/
def ofRoot (tree : FileTree) (root : String) : Except AuditError Config :=
  let path := Path.join root fileName
  if tree.isFile path then ofFile tree path else .ok {}

end Config

end TodoAudit
