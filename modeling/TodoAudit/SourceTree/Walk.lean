import TodoAudit.SourceTree.Basic

/-!
# Walking a file tree

A walk visits everything below a root, a directory before its entries and each entry where it
stands. Links are followed: one to a file counts as a file under the name of the link, one to a
directory is walked in its place. A link to a directory that is being walked would never end and is
a fault, as is a link that cannot be resolved. The walk ends because every directory is entered
either from the one above it or through a link, and a path leads through at most forty links.
-/

namespace TodoAudit

/-- Why a walk cannot go on. -/
inductive WalkFault where
  /-- The path cannot be resolved. -/
  | unresolved (path : String) (fault : FileFault)
  /-- The link leads to a directory in which it stands. -/
  | loop (link ancestor : String)
deriving DecidableEq, Repr

/-- The fault in words. -/
def WalkFault.message : WalkFault → String
  | .unresolved path fault => "IO error for operation on " ++ path ++ ": " ++ fault.message
  | .loop link ancestor =>
    "File system loop found: " ++ link ++ " points to an ancestor " ++ ancestor

/-- A file found on a walk, and what is read from it later on. The name is its own or that of the
link to it, and ends the path. -/
structure FoundFile where
  path : String
  name : String
  contents : FileContents

/-- A directory that is being walked: its path on the walk, and where it is. -/
structure Ancestor where
  path : String
  location : List String
deriving DecidableEq, Repr

namespace FileTree

variable {tree : FileTree}

mutual

/-- Visits an entry of a directory. The place of the directory comes first among the ancestors, and
`links` is how many more links the paths of its entries may lead through. -/
def visit (tree : FileTree) (links : Nat) (here : Ancestor) (above : List Ancestor) (name : String)
    (node : Node) : Except WalkFault (List FoundFile) :=
  let path := Path.join here.path name
  match node with
  | .regular contents => .ok [⟨path, name, contents⟩]
  | .directory entries =>
    visitAll tree links ⟨path, here.location ++ [name]⟩ (here :: above) entries
  | .link target =>
    match _h : tree.followLink links here.location target with
    | .error fault => .error (.unresolved path fault)
    | .ok (location, left) =>
      match tree.top.at? location with
      | some (.regular contents) => .ok [⟨path, name, contents⟩]
      | some (.directory entries) =>
        match (here :: above).find? fun a => a.location = location with
        | some a => .error (.loop path a.path)
        | none => visitAll tree left ⟨path, location⟩ (here :: above) entries
      | _ => .error (.unresolved path .notFound)
termination_by (links, sizeOf node)
decreasing_by
  · apply Prod.Lex.right
    rw [Node.directory.sizeOf_spec]
    omega
  · apply Prod.Lex.left
    exact lt_of_followLink_eq_ok _h

/-- Visits the entries of a directory, one after the other. -/
def visitAll (tree : FileTree) (links : Nat) (here : Ancestor) (above : List Ancestor) :
    (entries : List (String × Node)) → Except WalkFault (List FoundFile)
  | [] => .ok []
  | (name, node) :: entries => do
    let found ← visit tree links here above name node
    return found ++ (← visitAll tree links here above entries)
termination_by entries => (links, sizeOf entries)
decreasing_by
  · apply Prod.Lex.right
    rw [List.cons.sizeOf_spec, Prod.mk.sizeOf_spec]
    omega
  · apply Prod.Lex.right
    rw [List.cons.sizeOf_spec]
    omega

end

/-- Visits everything below the root. The root may be a file, and may be a link. -/
def walk (tree : FileTree) (root : String) : Except WalkFault (List FoundFile) :=
  match tree.resolve root with
  | .error fault => .error (.unresolved root fault)
  | .ok (location, links) =>
    match tree.top.at? location with
    | some (.regular contents) => .ok [⟨root, Path.lastName root, contents⟩]
    | some (.directory entries) => tree.visitAll links ⟨root, location⟩ [] entries
    | _ => .error (.unresolved root .notFound)

/-! ## Source files -/

/-- Whether the name ends with one of the extensions. Case matters. -/
def hasExtension (extensions : List String) (name : String) : Bool :=
  extensions.any fun ext => ext.toList.isSuffixOf name.toList

/-- The files below the root whose names end with one of the extensions. -/
def find (tree : FileTree) (root : String) (extensions : List String) :
    Except WalkFault (List FoundFile) :=
  (tree.walk root).map fun files => files.filter fun f => hasExtension extensions f.name

end FileTree

end TodoAudit
