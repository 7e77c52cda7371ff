/-!
# Paths

A path is a text in which slashes stand between names. Paths keep the form in which they were given:
nothing is taken away when a name is added at the end.
-/

namespace TodoAudit.Path

/-- The parts of a text between its slashes. -/
def parts : List Char → List (List Char)
  | [] => [[]]
  | c :: s =>
    if c = '/' then [] :: parts s
    else
      match parts s with
      | [] => [[c]]
      | p :: ps => (c :: p) :: ps

/-- Whether the path begins where all paths begin. -/
def isAbsolute (path : String) : Bool :=
  path.toList.head? = some '/'

/-- The names along a path. A slash at the end asks for a directory, as the name `.` does. -/
def names (path : String) : List String :=
  let inner := ((parts path.toList).filter fun p => !p.isEmpty).map String.ofList
  if path.toList.getLast? = some '/' then inner ++ ["."] else inner

/-- The path of an entry of a directory. -/
def join (directory name : String) : String :=
  if directory.toList.getLast?.all (· = '/') then directory ++ name else directory ++ "/" ++ name

/-- What stands behind the last slash. -/
def lastName (path : String) : String :=
  String.ofList ((parts path.toList).getLastD [])

end TodoAudit.Path
