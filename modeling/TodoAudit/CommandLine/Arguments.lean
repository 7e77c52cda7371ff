import TodoAudit.Report

/-!
# Arguments

The command line is a row of options, a command, and the options of the command. An option has a
long name behind two dashes, and may have a letter behind one dash. Its value stands in the same
argument, behind an equals sign or right behind the letter, or it is the next argument; as an
argument of its own it may not begin with a dash, unless it is a dash alone.
-/

namespace TodoAudit.CommandLine

/-! ## Options -/

/-- How an option is written. -/
structure Spelling (κ : Type) where
  key : κ
  long : String
  short : Option Char := none
  hasValue : Bool := true

/-- An option as it was found, with the value that stood in the same argument. -/
structure FoundOption (κ : Type) where
  spelling : Spelling κ
  value : Option String

variable {κ : Type}

/-- Whether an argument is written as an option. A dash alone is not. -/
def isOption (arg : String) : Bool :=
  match arg.toList with
  | '-' :: _ :: _ => true
  | _ => false

/-- The option that an argument names. -/
def findOption? (table : List (Spelling κ)) (arg : String) : Option (FoundOption κ) :=
  match arg.toList with
  | '-' :: '-' :: s => do
    let name := String.ofList (s.takeWhile (· ≠ '='))
    let spelling ← table.find? (·.long = name)
    return ⟨spelling, (s.dropWhile (· ≠ '=')).tail?.map String.ofList⟩
  | '-' :: letter :: s => do
    let spelling ← table.find? (·.short = some letter)
    return ⟨spelling, if s.isEmpty then none else some (String.ofList (valueOf s))⟩
  | _ => none
where
  /-- The value right behind the letter, without an equals sign in front of it. -/
  valueOf : List Char → List Char
    | '=' :: s => s
    | s => s

/-- Reads options up to the first argument that is none. Gives each with its value, which is empty
for an option without one, and the arguments that are left. -/
def readOptions (table : List (Spelling κ)) :
    List String → Option (List (κ × String) × List String)
  | [] => some ([], [])
  | arg :: args =>
    if arg = "--" || !isOption arg then some ([], arg :: args)
    else
      match findOption? table arg with
      | none => none
      | some ⟨spelling, value⟩ =>
        if spelling.hasValue then
          match value, args with
          | some value, args => add (spelling.key, value) (readOptions table args)
          | none, value :: args =>
            if isOption value then none else add (spelling.key, value) (readOptions table args)
          | none, [] => none
        else if value.isSome then none
        else add (spelling.key, "") (readOptions table args)
where
  /-- Puts an option before those that follow. -/
  add (found : κ × String) : Option (List (κ × String) × List String) →
      Option (List (κ × String) × List String)
    | some (options, left) => some (found :: options, left)
    | none => none

/-- The values of an option, in their order. -/
def valuesOf [DecidableEq κ] (key : κ) (options : List (κ × String)) : List String :=
  (options.filter (·.1 = key)).map Prod.snd

/-- The value of an option that may be given once. -/
def valueOf? [DecidableEq κ] (key : κ) (options : List (κ × String)) : Option (Option String) :=
  match valuesOf key options with
  | [] => some none
  | [value] => some (some value)
  | _ => none

/-! ## What can be asked for -/

/-- The options before the command. -/
inductive GlobalOption where
  | root | config | extension | language | duePhrase | dateFormat | mentionSymbol | json
deriving DecidableEq, Repr

/-- How the options before the command are written. -/
def globalOptions : List (Spelling GlobalOption) :=
  [{ key := .root, long := "root", short := some 'r' },
    { key := .config, long := "config", short := some 'c' },
    { key := .extension, long := "ext", short := some 'e' },
    { key := .language, long := "lang", short := some 'l' },
    { key := .duePhrase, long := "due-date-prefix" },
    { key := .dateFormat, long := "date-format" },
    { key := .mentionSymbol, long := "mention-symbol" },
    { key := .json, long := "json", hasValue := false }]

/-- The options of the list command. -/
inductive ListOption where
  | assignee | sort | overdue
deriving DecidableEq, Repr

/-- How the options of the list command are written. -/
def listOptions : List (Spelling ListOption) :=
  [{ key := .assignee, long := "assignee", short := some 'a' },
    { key := .sort, long := "sort", short := some 's' },
    { key := .overdue, long := "overdue", hasValue := false }]

/-- What is to be done with the todos. -/
inductive Command where
  | list (assignee : Option String) (direction : SortDirection) (overdueOnly : Bool)
  | verify
deriving DecidableEq, Repr

/-- What the arguments ask for. -/
structure Request where
  root : String := "."
  configFile : Option String := none
  extensions : List String := []
  languages : List String := []
  duePhrases : List String := []
  dateFormat : Option String := none
  mentionSymbol : Option String := none
  json : Bool := false
  command : Command
deriving DecidableEq, Repr

/-! ## Reading the arguments -/

/-- A value that may not be empty. -/
def nonempty : Option String → Option (Option String)
  | some "" => none
  | value => some value

/-- The order with this name. -/
def directionOf? : Option String → Option SortDirection
  | none | some "desc" => some .descending
  | some "asc" => some .ascending
  | _ => none

/-- Requires that no argument is left, but perhaps the mark that ends the options. -/
def finished : List String → Option Unit
  | [] | ["--"] => some ()
  | _ => none

/-- Reads a command with its options. -/
def readCommand : List String → Option Command
  | "list" :: args => do
    let (options, left) ← readOptions listOptions args
    finished left
    return .list (← valueOf? .assignee options) (← directionOf? (← valueOf? .sort options))
      (← valueOf? .overdue options).isSome
  | "verify" :: args => do
    finished args
    return .verify
  | _ => none

/-- Reads the arguments of the program. -/
def Request.ofArguments (args : List String) : Option Request := do
  let (options, left) ← readOptions globalOptions args
  return {
    root := (← nonempty (← valueOf? .root options)).getD "."
    configFile := ← nonempty (← valueOf? .config options)
    extensions := valuesOf .extension options
    languages := valuesOf .language options
    duePhrases := valuesOf .duePhrase options
    dateFormat := ← valueOf? .dateFormat options
    mentionSymbol := ← valueOf? .mentionSymbol options
    json := (← valueOf? .json options).isSome
    command := ← readCommand left }

end TodoAudit.CommandLine
