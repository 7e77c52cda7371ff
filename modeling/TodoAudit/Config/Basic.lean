import TodoAudit.Language
import TodoAudit.Todo.Reader

/-!
# Configurations

What a scan needs to know: which files to read and how to read the todos in them.
-/

namespace TodoAudit

/-- What a scan needs to know. -/
structure Config where
  /-- How assignees and due dates are written. -/
  rules : ReadingRules := {}
  /-- How the names of source files end. Case matters. -/
  extensions : List String := Language.defaultExtensions
deriving DecidableEq, Repr

namespace Config

/-- The name of the configuration file that is looked for where a scan begins. -/
def fileName : String := "todome.json"

/-- Whether todos can be read by the rules of the configuration. -/
def check (c : Config) : Except RuleFault Unit :=
  c.rules.check

end Config

end TodoAudit
