import TodoAudit.SourceTree.Path

/-!
# File trees

A file tree holds directories, files with what is read from them, and symbolic links with the text
of their target. From a file either its bytes are read or a fault comes back: who may read it and
whether it is still there is settled when it is opened, after the walk has come to it. A directory
can always be listed. To resolve a path is to go along its names, replacing each link on the way by
its target, until a file or a directory is reached. A path that leads through more than forty links,
as one through a link to itself does, cannot be resolved.

Names and link targets are texts. A file system in which one of them is not valid UTF-8 is no file
tree.
-/

namespace TodoAudit

/-- Why a file cannot be read or a path not be resolved. -/
inductive FileFault where
  | notFound
  | permissionDenied
  | notDirectory
  | isDirectory
  | tooManyLinks
  | notText
  /-- Any other fault, in the words of the system. -/
  | other (words : String)
deriving DecidableEq, Repr

/-- The fault in words. -/
def FileFault.message : FileFault → String
  | .notFound => "No such file or directory (os error 2)"
  | .permissionDenied => "Permission denied (os error 13)"
  | .notDirectory => "Not a directory (os error 20)"
  | .isDirectory => "Is a directory (os error 21)"
  | .tooManyLinks => "Too many levels of symbolic links (os error 40)"
  | .notText => "stream did not contain valid UTF-8"
  | .other words => words

/-- What is read from a file: its bytes, or why they cannot be had. -/
abbrev FileContents := Except FileFault ByteArray

/-- The contents as text, in UTF-8. -/
def FileContents.text (contents : FileContents) : Except FileFault String := do
  let bytes ← contents
  match String.fromUTF8? bytes with
  | some text => return text
  | none => throw .notText

/-- What a name in a directory stands for. -/
inductive Node where
  | regular (contents : FileContents)
  | directory (entries : List (String × Node))
  | link (target : String)

namespace Node

/-- A file from which the bytes are read. -/
abbrev file (bytes : ByteArray) : Node :=
  .regular (.ok bytes)

/-- A file that is there but cannot be read. -/
abbrev unreadable (fault : FileFault) : Node :=
  .regular (.error fault)

/-- The entry of a list of entries that has the name. -/
def child? (name : String) (entries : List (String × Node)) : Option Node :=
  entries.lookup name

/-- The node that is reached from a node along names of entries, links not followed. -/
def at? (node : Node) : (location : List String) → Option Node
  | [] => some node
  | name :: names =>
    match node with
    | .directory entries => (child? name entries).bind fun child => child.at? names
    | _ => none

end Node

/-- A file tree, and the place in it where relative paths begin. -/
structure FileTree where
  top : Node
  workingDirectory : List String := []

namespace FileTree

variable {tree : FileTree} {links left : Nat} {location found : List String} {names : List String}

/-- How many links a path may lead through. -/
def linkLimit : Nat := 40

/-- Where a path that is met in a directory begins. -/
def origin (directory : List String) (path : String) : List String :=
  if Path.isAbsolute path then [] else directory

/-- Goes along names from a location, through at most `links` links. Gives the location that is
reached, with how many more links may follow. The directory above the top is the top itself. -/
def follow (tree : FileTree) (links : Nat) (location : List String) :
    (names : List String) → Except FileFault (List String × Nat)
  | [] => .ok (location, links)
  | name :: names =>
    match tree.top.at? location with
    | some (.directory entries) =>
      if name = "." then follow tree links location names
      else if name = ".." then follow tree links location.dropLast names
      else
        match Node.child? name entries with
        | none => .error .notFound
        | some (.link target) =>
          match _h : links with
          | 0 => .error .tooManyLinks
          | left + 1 => follow tree left (origin location target) (Path.names target ++ names)
        | some _ => follow tree links (location ++ [name]) names
    | some _ => .error .notDirectory
    | none => .error .notFound
termination_by names => (links, names.length)

/-- No path is resolved through more links than it may lead through. -/
theorem le_of_follow_eq_ok (h : tree.follow links location names = .ok (found, left)) :
    left ≤ links := by
  fun_induction follow tree links location names with
  | case1 => cases h; exact Nat.le_refl _
  | case2 _ _ _ _ _ ih => exact ih h
  | case3 _ _ _ _ _ _ ih => exact ih h
  | case4 => cases h
  | case5 => cases h
  | case6 =>
    rename_i ih
    exact Nat.le_succ_of_le (ih h)
  | case7 =>
    rename_i ih
    exact ih h
  | case8 => cases h
  | case9 => cases h

/-- Goes from a directory to the target of a link in it. -/
def followLink (tree : FileTree) (links : Nat) (directory : List String) (target : String) :
    Except FileFault (List String × Nat) :=
  match links with
  | 0 => .error .tooManyLinks
  | left + 1 => tree.follow left (origin directory target) (Path.names target)

/-- A link uses up one of the links that a path may lead through. -/
theorem lt_of_followLink_eq_ok {directory : List String} {target : String}
    (h : tree.followLink links directory target = .ok (found, left)) : left < links := by
  cases links with
  | zero => cases h
  | succ n => exact Nat.lt_succ_of_le (le_of_follow_eq_ok h)

/-- The location to which a path leads, with how many more links may follow. -/
def resolve (tree : FileTree) (path : String) : Except FileFault (List String × Nat) :=
  if path = "" then .error .notFound
  else tree.follow linkLimit (origin tree.workingDirectory path) (Path.names path)

/-- The text of the file to which a path leads. -/
def readText (tree : FileTree) (path : String) : Except FileFault String := do
  let (location, _) ← tree.resolve path
  match tree.top.at? location with
  | some (.regular contents) => contents.text
  | some _ => throw .isDirectory
  | none => throw .notFound

/-- Whether a path leads to a file, which need not be readable. -/
def isFile (tree : FileTree) (path : String) : Bool :=
  match tree.resolve path with
  | .ok (location, _) =>
    match tree.top.at? location with
    | some (.regular _) => true
    | _ => false
  | .error _ => false

end FileTree

end TodoAudit
