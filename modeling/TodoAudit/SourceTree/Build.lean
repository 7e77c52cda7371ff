import TodoAudit.SourceTree.Basic

/-!
# Building a file tree

A file tree is built up by putting nodes into directories. The directories on the way to a node are
made as they are needed, links on the way are followed, and entries keep the order in which they
came.
-/

namespace TodoAudit

namespace Node

/-- The entries with one of them replaced, or added behind the others. -/
def setEntry (name : String) (node : Node) : List (String × Node) → List (String × Node)
  | [] => [(name, node)]
  | (other, old) :: entries =>
    if other = name then (name, node) :: entries else (other, old) :: setEntry name node entries

/-- The entries of a directory. Other nodes have none. -/
def entries : Node → List (String × Node)
  | .directory entries => entries
  | _ => []

/-- The node with another one put below it, at the end of a path of names. A directory that is
already there stays with all that it holds. -/
def insert (node : Node) : (names : List String) → Node → Node
  | [], old =>
    match node, old with
    | .directory [], .directory entries => .directory entries
    | _, _ => node
  | name :: names, old =>
    let child := (child? name old.entries).getD (.directory [])
    .directory (setEntry name (insert node names child) old.entries)

end Node

namespace FileTree

/-- The tree with nothing in it. -/
def empty : FileTree where
  top := .directory []

/-- One step on the way to the place of a path. A name that is not there yet is to be made. -/
def step (tree : FileTree) (location : List String) (name : String) : List String :=
  if name = "." then location
  else if name = ".." then location.dropLast
  else
    match tree.follow linkLimit location [name] with
    | .ok (found, _) => found
    | .error _ => location ++ [name]

/-- The place of a path that need not be there yet. -/
def place (tree : FileTree) (path : String) : List String :=
  (Path.names path).foldl tree.step (origin tree.workingDirectory path)

/-- The tree with a node put at the place of a path. -/
def insert (tree : FileTree) (path : String) (node : Node) : FileTree :=
  { tree with top := node.insert (tree.place path) tree.top }

end FileTree

end TodoAudit
