import Mathlib
import TodoAudit.Proofs.SourceTree.Resolution

/-!
# Trees of the same shape

Trees of the same shape have the same directories and links, and files in the same places: they
differ only in what is read from the files, and in which of them can be read. Paths lead to the same
places in both (`SameShape.resolve_eq`), and a search finds files under the same paths
(`SameShape.find_ok`) or fails with the same fault (`SameShape.find_error`).
-/

namespace TodoAudit

/-- Nodes that differ at most in the contents of a file. -/
inductive Node.Alike : Node → Node → Prop
  | regular {contents contents' : FileContents} : Alike (.regular contents) (.regular contents')
  | link {target : String} : Alike (.link target) (.link target)
  | directory {entries entries' : List (String × Node)} :
      entries.map Prod.fst = entries'.map Prod.fst →
      Alike (.directory entries) (.directory entries')

/-- The path and the name of a found file. -/
def FoundFile.label (f : FoundFile) : String × String :=
  (f.path, f.name)

namespace FileTree

/-- Trees that differ only in the contents of files. -/
structure SameShape (tree tree' : FileTree) : Prop where
  workingDirectory : tree.workingDirectory = tree'.workingDirectory
  node : ∀ location, Option.Rel Node.Alike (tree.top.at? location) (tree'.top.at? location)

/-- The files of a result, without what stands in them. -/
def labels (result : Except WalkFault (List FoundFile)) :
    Except WalkFault (List (String × String)) :=
  result.map (List.map FoundFile.label)

theorem labels_append (x y : Except WalkFault (List FoundFile)) :
    labels (do let found ← x; return found ++ (← y)) =
      do let found ← labels x; return found ++ (← labels y) := by
  cases x with
  | error fault => rfl
  | ok files =>
    cases y with
    | error fault => rfl
    | ok files' =>
      exact congrArg Except.ok List.map_append

theorem labels_find_eq (tree : FileTree) (root : String) (extensions : List String) :
    labels (tree.find root extensions) = (labels (tree.walk root)).map fun found =>
      found.filter fun label => hasExtension extensions label.2 := by
  rw [find]
  cases tree.walk root with
  | error fault => rfl
  | ok files =>
    have hfilter : (files.filter fun f => hasExtension extensions f.name).map FoundFile.label =
        (files.map FoundFile.label).filter fun label => hasExtension extensions label.2 := by
      rw [List.filter_map]
      rfl
    exact congrArg Except.ok hfilter

namespace SameShape

variable {tree tree' : FileTree} {links : Nat} {location names : List String} {name : String}
  {entries entries' : List (String × Node)}

/-! ## Paths -/

theorem exists_alike (h : tree.SameShape tree') {node : Node}
    (hat : tree.top.at? location = some node) :
    ∃ node', tree'.top.at? location = some node' ∧ node.Alike node' := by
  have hnode := h.node location
  rw [hat] at hnode
  generalize tree'.top.at? location = found at hnode
  cases hnode with
  | some halike => exact ⟨_, rfl, halike⟩

theorem alike (h : tree.SameShape tree') {node node' : Node}
    (hat : tree.top.at? location = some node) (hat' : tree'.top.at? location = some node') :
    node.Alike node' := by
  obtain ⟨found, hfound, halike⟩ := h.exists_alike hat
  cases hat'.symm.trans hfound
  exact halike

/-- What a name leads to is seen in either tree. -/
theorem follow_cons (h : tree.SameShape tree')
    (hat : tree.top.at? location = some (.directory entries)) :
    tree'.follow links location (name :: names) =
      if name = "." then tree'.follow links location names
      else if name = ".." then tree'.follow links location.dropLast names
      else match Node.child? name entries with
        | none => .error .notFound
        | some (.link target) =>
          match links with
          | 0 => .error .tooManyLinks
          | left + 1 => tree'.follow left (origin location target) (Path.names target ++ names)
        | some _ => tree'.follow links (location ++ [name]) names := by
  obtain ⟨node', hat', halike⟩ := h.exists_alike hat
  obtain ⟨entries', rfl⟩ : ∃ entries', node' = .directory entries' := by
    cases halike
    exact ⟨_, rfl⟩
  have hchild : Option.Rel Node.Alike (Node.child? name entries) (Node.child? name entries') := by
    rw [← Node.at?_concat hat, ← Node.at?_concat hat']
    exact h.node _
  rw [FileTree.follow_cons hat']
  generalize Node.child? name entries = child at hchild ⊢
  generalize Node.child? name entries' = child' at hchild ⊢
  cases hchild with
  | none => rfl
  | some halike => cases halike <;> rfl

/-- Names lead to the same places in both trees. -/
theorem follow_eq (h : tree.SameShape tree') (links : Nat) (location names : List String) :
    tree.follow links location names = tree'.follow links location names := by
  fun_induction follow tree links location names with
  | case1 => rw [follow_nil]
  | case2 links location names entries hat ih => rw [h.follow_cons hat, if_pos rfl, ih]
  | case3 links location names entries hat hdot ih =>
    rw [h.follow_cons hat, if_neg hdot, if_pos rfl, ih]
  | case4 =>
    rename_i hat hdot hdotDot hchild
    rw [h.follow_cons hat, if_neg hdot, if_neg hdotDot, hchild]
  | case5 =>
    rename_i hat hdot hdotDot target hchild
    rw [h.follow_cons hat, if_neg hdot, if_neg hdotDot, hchild]
  | case6 =>
    rename_i hat hdot hdotDot target hchild left ih
    rw [h.follow_cons hat, if_neg hdot, if_neg hdotDot, hchild, ih]
  | case7 =>
    rename_i hat hdot hdotDot child hlink hchild ih
    rw [h.follow_cons hat, if_neg hdot, if_neg hdotDot, hchild, ih]
    cases child with
    | link target => exact absurd rfl (hlink target)
    | _ => rfl
  | case8 =>
    rename_i links location name names node hother hat
    have hnode := h.node location
    rw [hat] at hnode
    rw [follow]
    generalize tree'.top.at? location = found at hnode ⊢
    cases hnode with
    | some halike =>
      cases halike with
      | directory _ => exact absurd rfl (hother _)
      | _ => rfl
  | case9 links location name names hnone =>
    have hnode := h.node location
    rw [hnone] at hnode
    rw [follow]
    generalize tree'.top.at? location = found at hnode ⊢
    cases hnode
    rfl

theorem followLink_eq (h : tree.SameShape tree') (links : Nat) (directory : List String)
    (target : String) :
    tree.followLink links directory target = tree'.followLink links directory target := by
  cases links with
  | zero => rfl
  | succ left => exact h.follow_eq _ _ _

theorem resolve_eq (h : tree.SameShape tree') (path : String) :
    tree.resolve path = tree'.resolve path := by
  rw [resolve, resolve, h.workingDirectory, h.follow_eq]

/-! ## Walks -/

/-- The entries are where the directory is. -/
def Stand (tree : FileTree) (location : List String) (entries : List (String × Node)) : Prop :=
  ∀ e ∈ entries, tree.top.at? (location ++ [e.1]) = some e.2

theorem stand_of_directory (hwf : tree.top.WellFormed)
    (hat : tree.top.at? location = some (.directory entries)) : Stand tree location entries := by
  intro e he
  cases hwf.at? hat with
  | directory hnodup _ _ =>
    rw [Node.at?_concat hat]
    exact (Node.child?_eq_some_iff hnodup).2 he

/-- Both trees are visited alike. -/
theorem labels_visitAll (h : tree.SameShape tree') (hwf : tree.top.WellFormed)
    (hwf' : tree'.top.WellFormed) {here : Ancestor} {above : List Ancestor}
    (hnames : entries.map Prod.fst = entries'.map Prod.fst)
    (hstand : Stand tree here.location entries) (hstand' : Stand tree' here.location entries') :
    labels (tree.visitAll links here above entries) =
      labels (tree'.visitAll links here above entries') := by
  induction links, here, above, entries using visitAll.induct tree
    (fun links here above name node => ∀ node',
      tree.top.at? (here.location ++ [name]) = some node →
      tree'.top.at? (here.location ++ [name]) = some node' →
      labels (tree.visit links here above name node) =
        labels (tree'.visit links here above name node')) generalizing entries' with
  | case1 links here above name contents node' hat hat' =>
    cases h.alike hat hat'
    rw [visit, visit]
    rfl
  | case2 links here above name path inner ih node' hat hat' =>
    cases h.alike hat hat' with
    | directory hnames =>
      rw [visit, visit]
      exact ih hnames (stand_of_directory hwf hat) (stand_of_directory hwf' hat')
  | case3 links here above name target fault hfollow node' hat hat' =>
    cases h.alike hat hat'
    rw [visit_link, visit_link, ← h.followLink_eq, hfollow]
  | case4 links here above name target location left hfollow contents hfile node' hat hat' =>
    cases h.alike hat hat'
    obtain ⟨found, hfound, halike⟩ := h.exists_alike hfile
    cases halike
    rw [visit_link, visit_link, ← h.followLink_eq, hfollow]
    dsimp only
    rw [hfile, hfound]
    rfl
  | case5 links here above name target location left hfollow inner hinner a ha node' hat hat' =>
    cases h.alike hat hat'
    obtain ⟨found, hfound, halike⟩ := h.exists_alike hinner
    cases halike
    rw [visit_link, visit_link, ← h.followLink_eq, hfollow]
    dsimp only
    rw [hinner, hfound]
    dsimp only
    rw [ha]
  | case6 links here above name path target location left hfollow inner hinner hnone ih node' hat
      hat' =>
    cases h.alike hat hat'
    obtain ⟨found, hfound, halike⟩ := h.exists_alike hinner
    cases halike with
    | directory hnames =>
      rw [visit_link, visit_link, ← h.followLink_eq, hfollow]
      dsimp only
      rw [hinner, hfound]
      dsimp only
      rw [hnone]
      exact ih hnames (stand_of_directory hwf hinner) (stand_of_directory hwf' hfound)
  | case7 links here above name target location left hfollow hfile hinner node' hat hat' =>
    cases h.alike hat hat'
    rw [visit_link, visit_link, ← h.followLink_eq, hfollow]
    dsimp only
    have hnode := h.node location
    generalize tree.top.at? location = found at hnode hfile hinner ⊢
    generalize tree'.top.at? location = found' at hnode ⊢
    cases hnode with
    | none => rfl
    | some halike =>
      cases halike with
      | regular => exact absurd rfl (hfile _)
      | link => rfl
      | directory _ => exact absurd rfl (hinner _)
  | case8 links here above =>
    cases List.map_eq_nil_iff.1 hnames.symm
    rw [visitAll, visitAll]
  | case9 links here above name node entries ih ihrest =>
    obtain ⟨⟨name', node'⟩, rest, rfl, hname, hrest⟩ := List.map_eq_cons_iff.1 hnames.symm
    dsimp only at hname
    subst hname
    rw [Stand, List.forall_mem_cons] at hstand hstand'
    rw [visitAll, visitAll, labels_append, labels_append, ih node' hstand.1 hstand'.1,
      ihrest hrest.symm hstand.2 hstand'.2]

/-- Both trees are walked alike. -/
theorem labels_walk (h : tree.SameShape tree') (hwf : tree.top.WellFormed)
    (hwf' : tree'.top.WellFormed) (root : String) :
    labels (tree.walk root) = labels (tree'.walk root) := by
  rw [walk, walk, ← h.resolve_eq]
  split
  · rfl
  · rename_i location links hresolve
    have hnode := h.node location
    generalize hat : tree.top.at? location = found at hnode ⊢
    generalize hat' : tree'.top.at? location = found' at hnode ⊢
    cases hnode with
    | none => rfl
    | some halike =>
      cases halike with
      | regular => rfl
      | link => rfl
      | directory hnames =>
        exact h.labels_visitAll hwf hwf' hnames (stand_of_directory hwf hat)
          (stand_of_directory hwf' hat')

theorem labels_find (h : tree.SameShape tree') (hwf : tree.top.WellFormed)
    (hwf' : tree'.top.WellFormed) (root : String) (extensions : List String) :
    labels (tree.find root extensions) = labels (tree'.find root extensions) := by
  rw [labels_find_eq, labels_find_eq, h.labels_walk hwf hwf']

/-- A search fails with the same fault. -/
theorem find_error (h : tree.SameShape tree') (hwf : tree.top.WellFormed)
    (hwf' : tree'.top.WellFormed) {root : String} {extensions : List String} {fault : WalkFault}
    (hfind : tree.find root extensions = .error fault) :
    tree'.find root extensions = .error fault := by
  have hlabels := h.labels_find hwf hwf' root extensions
  rw [hfind] at hlabels
  cases hfind' : tree'.find root extensions with
  | error fault' =>
    rw [hfind'] at hlabels
    cases hlabels
    rfl
  | ok files' =>
    rw [hfind'] at hlabels
    cases hlabels

/-- A search finds files under the same paths. -/
theorem find_ok (h : tree.SameShape tree') (hwf : tree.top.WellFormed)
    (hwf' : tree'.top.WellFormed) {root : String} {extensions : List String}
    {files : List FoundFile} (hfind : tree.find root extensions = .ok files) :
    ∃ files', tree'.find root extensions = .ok files' ∧
      files'.map FoundFile.path = files.map FoundFile.path := by
  have hlabels := h.labels_find hwf hwf' root extensions
  rw [hfind] at hlabels
  cases hfind' : tree'.find root extensions with
  | error fault =>
    rw [hfind'] at hlabels
    cases hlabels
  | ok files' =>
    rw [hfind'] at hlabels
    have hpaths := congrArg (List.map Prod.fst) (Except.ok.inj hlabels)
    rw [List.map_map, List.map_map] at hpaths
    exact ⟨files', rfl, hpaths.symm⟩

end SameShape

end FileTree

end TodoAudit
