import Std.Time.Zoned
import TodoAudit.CommandLine.Run
import TodoAudit.SourceTree.Build

/-!
# The program

Reads the paths of a source tree from standard input, one on a line, as `find -L . -type f` lists
them, and carries out what the arguments ask for on the tree that they make up. The listing follows
links and leaves out those that lead nowhere, so there are none in that tree. A listed file that
cannot be read is in the tree with the reason for it, and stops the audit if it is a source file.
The root and the configuration file need not be listed.
-/

namespace TodoAudit.Program

/-- Why the system does not read a file. -/
def fault : IO.Error → FileFault
  | .noFileOrDirectory .. => .notFound
  | .permissionDenied .. => .permissionDenied
  | e => .other (toString e)

/-- Whether there is anything at a path. -/
def isThere (path : String) : IO Bool := do
  return (← (IO.FS.realPath path).toBaseIO).isOk

/-- Puts what is at a path into the tree: a directory, or else a file with what is read from it. -/
def load (tree : FileTree) (path : String) : IO FileTree := do
  if ← isThere (path ++ "/.") then
    return tree.insert path (.directory [])
  let contents ← (IO.FS.readBinFile path).toBaseIO
  return tree.insert path (.regular (contents.mapError fault))

/-- Puts what is at a path into the tree, if there is anything. -/
def loadIfThere (tree : FileTree) (path : String) : IO FileTree := do
  if ← isThere path then load tree path else return tree

/-- The lines of a stream, without their line breaks. -/
partial def readLines (input : IO.FS.Stream) (lines : Array String) : IO (Array String) := do
  let line ← input.getLine
  if line.isEmpty then return lines
  readLines input (lines.push (String.ofList (line.toList.takeWhile (· ≠ '\n'))))

/-- The tree of the listed files, as far as the request can reach it. -/
def loadTree (request : CommandLine.Request) : IO FileTree := do
  let listed ← readLines (← IO.getStdin) #[]
  let configFile := request.configFile.getD (Path.join request.root Config.fileName)
  let start : FileTree :=
    { FileTree.empty with workingDirectory := Path.names (toString (← IO.currentDir)) }
  listed.toList.foldlM load (← [request.root, configFile].foldlM loadIfThere start)

/-- What the environment says about colors on standard output. -/
def surroundings : IO Terminal.Surroundings := do
  return {
    isTerminal := ← (← IO.getStdout).isTty
    kind := ← IO.getEnv "TERM"
    refusal := ← IO.getEnv "NO_COLOR"
    wish := ← IO.getEnv "CLICOLOR"
    force := ← IO.getEnv "CLICOLOR_FORCE" }

/-- The current day. -/
def today : IO Date := do
  let now ← Std.Time.PlainDate.now
  match Date.ofYearMonthDay? now.year now.month.val.toNat now.day.val.toNat with
  | some d => return d
  | none => throw (IO.userError "The current day is not in the calendar")

end TodoAudit.Program

open TodoAudit in
/-- Carries out the request in the arguments. -/
def main (args : List String) : IO UInt32 := do
  match CommandLine.Request.ofArguments args with
  | none =>
    IO.eprintln "Usage: todo-audit [OPTIONS] <COMMAND>"
    return 2
  | some request =>
    let colors := (← Program.surroundings).showColors
    let result := request.run (← Program.loadTree request) (← Program.today) colors
    IO.print result.output
    IO.eprint result.errors
    return result.code.toUInt32
