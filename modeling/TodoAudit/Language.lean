/-!
# Languages

The programming languages in which comments look like `// …` and `/* … */`, with the endings of
their files. Names are looked up without regard to the case of ASCII letters.
-/

namespace TodoAudit

/-- A programming language. -/
structure Language where
  name : String
  /-- How the names of its files end, dot included. -/
  extensions : List String
deriving DecidableEq, Repr

/-- A language that is not in the table. -/
structure UnknownLanguage where
  name : String
deriving DecidableEq, Repr

namespace Language

/-- The languages that are scanned when nothing else is said. -/
def common : List Language :=
  [⟨"Java", [".java"]⟩, ⟨"Kotlin", [".kt", ".kts"]⟩, ⟨"Groovy", [".groovy"]⟩]

/-- All languages, the common ones first. -/
def all : List Language :=
  common ++
    [⟨"Actionscript", [".as"]⟩,
      ⟨"Apex", [".cls", ".trigger"]⟩,
      ⟨"C", [".h", ".c", ".cpp", ".cxx", ".cc", ".hpp", ".hxx", ".hh", ".ino"]⟩,
      ⟨"C#", [".cs"]⟩,
      ⟨"CSS", [".css"]⟩,
      ⟨"D", [".d"]⟩,
      ⟨"Dart", [".dart"]⟩,
      ⟨"Go", [".go"]⟩,
      ⟨"Haxe", [".hx"]⟩,
      ⟨"JavaScript", [".js", ".es6", ".es", ".jsx", ".mjs", ".cjs"]⟩,
      ⟨"Less", [".less"]⟩,
      ⟨"Objective-C", [".m", ".mm"]⟩,
      ⟨"PHP", [".php"]⟩,
      ⟨"Protobuf", [".proto"]⟩,
      ⟨"Reasonml", [".re"]⟩,
      ⟨"Rust", [".rs"]⟩,
      ⟨"Sbt", [".sbt"]⟩,
      ⟨"Scala", [".sc", ".scala"]⟩,
      ⟨"Scss", [".scss"]⟩,
      ⟨"Swift", [".swift"]⟩,
      ⟨"Typescript", [".ts", ".tsx"]⟩,
      ⟨"Vue component", [".vue"]⟩]

/-- The endings of the files of the common languages. -/
def defaultExtensions : List String :=
  common.flatMap extensions

/-- The name with its ASCII capitals in small letters. -/
def caseFolded (name : String) : List Char :=
  name.toList.map Char.toLower

/-- The language of this name. -/
def ofName (name : String) : Except UnknownLanguage Language :=
  match all.find? fun l => caseFolded l.name = caseFolded name with
  | some l => .ok l
  | none => .error ⟨name⟩

/-- The given extensions, and behind them those of the list that are not there yet. -/
def addNew (known : List String) : List String → List String
  | [] => known
  | ext :: exts => addNew (if ext ∈ known then known else known ++ [ext]) exts

/-- The extensions of the named languages, each once, in the order in which they come up. -/
def extensionsOf (names : List String) : Except UnknownLanguage (List String) := do
  return addNew [] ((← names.mapM ofName).flatMap extensions)

end Language

end TodoAudit
