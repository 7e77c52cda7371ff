import TodoAudit.Proofs.Success
import TodoAudit.SourceTree.Walk

/-!
# Resolving the path of an entry

A walk never resolves the path of an entry from its beginning: it goes on from the directory in
which the entry stands. Both come to the same (`resolve_join`), because names are followed one after
the other (`follow_append`) and an entry adds one name to the path of its directory
(`names_join`). Names have to be such as file systems have them (`Node.WellFormed`).
-/

namespace TodoAudit

/-! ## Paths of entries -/

namespace Path

/-- What an entry of a directory can be called. -/
structure IsName (name : String) : Prop where
  ne_empty : name ≠ ""
  noSlash : '/' ∉ name.toList
  ne_dot : name ≠ "."
  ne_dotDot : name ≠ ".."

instance (name : String) : Decidable (IsName name) :=
  decidable_of_iff (name ≠ "" ∧ '/' ∉ name.toList ∧ name ≠ "." ∧ name ≠ "..")
    ⟨fun ⟨h₁, h₂, h₃, h₄⟩ => ⟨h₁, h₂, h₃, h₄⟩, fun ⟨h₁, h₂, h₃, h₄⟩ => ⟨h₁, h₂, h₃, h₄⟩⟩

variable {s : List Char} {directory name : String}

theorem toList_ne_nil (h : name ≠ "") : name.toList ≠ [] := by
  simpa [String.toList_eq_nil_iff] using h

theorem parts_ne_nil (s : List Char) : parts s ≠ [] := by
  cases s with
  | nil => simp [parts]
  | cons c s =>
    rw [parts]
    split
    · simp
    · split <;> simp

theorem parts_append_slash (s t : List Char) : parts (s ++ '/' :: t) = parts s ++ parts t := by
  induction s with
  | nil => simp [parts]
  | cons c s ih =>
    rw [List.cons_append, parts, parts]
    split
    · rw [ih, List.cons_append]
    · obtain ⟨p, ps, hp⟩ := List.exists_cons_of_ne_nil (parts_ne_nil s)
      rw [ih, hp]
      rfl

theorem parts_of_noSlash (h : '/' ∉ s) : parts s = [s] := by
  induction s with
  | nil => rfl
  | cons c s ih =>
    rw [List.mem_cons, not_or] at h
    rw [parts, if_neg (Ne.symm h.1), ih h.2]

/-- The names along a path, without what a slash at its end asks for. -/
def steps (path : String) : List String :=
  ((parts path.toList).filter fun p => !p.isEmpty).map String.ofList

theorem names_eq (path : String) :
    names path = steps path ++ if path.toList.getLast? = some '/' then ["."] else [] := by
  rw [names, steps]
  split <;> simp

theorem join_of_slash (h : directory.toList.getLast? = some '/') :
    join directory name = directory ++ name := by
  rw [join, h]
  rfl

theorem join_of_not_slash (hne : directory ≠ "") (h : directory.toList.getLast? ≠ some '/') :
    join directory name = directory ++ "/" ++ name := by
  have hlast := List.getLast?_eq_some_getLast (toList_ne_nil hne)
  rw [join, if_neg]
  rw [hlast] at h ⊢
  simpa using h

/-- The path of a directory up to where the names of its entries begin. -/
def stem (directory : String) : List Char :=
  directory.toList ++ if directory.toList.getLast? = some '/' then [] else ['/']

theorem toList_join (hne : directory ≠ "") :
    (join directory name).toList = stem directory ++ name.toList := by
  by_cases h : directory.toList.getLast? = some '/'
  · simp [join_of_slash h, stem, h]
  · simp [join_of_not_slash hne h, stem, h]

theorem exists_stem_eq (directory : String) :
    ∃ front, stem directory = front ++ ['/'] ∧
      (parts directory.toList).filter (fun p => !p.isEmpty) =
        (parts front).filter fun p => !p.isEmpty := by
  by_cases h : directory.toList.getLast? = some '/'
  · obtain ⟨front, hfront⟩ := List.getLast?_eq_some_iff.1 h
    refine ⟨front, by simp [stem, hfront], ?_⟩
    rw [hfront, parts_append_slash]
    simp [parts]
  · exact ⟨directory.toList, by simp [stem, h], rfl⟩

/-- An entry adds its name to the path of its directory. -/
theorem names_join (hne : directory ≠ "") (hname : IsName name) :
    names (join directory name) = steps directory ++ [name] := by
  obtain ⟨front, hstem, hsteps⟩ := exists_stem_eq directory
  have hnil : name.toList ≠ [] := toList_ne_nil hname.ne_empty
  have hlast : (join directory name).toList.getLast? ≠ some '/' := by
    rw [toList_join hne, List.getLast?_append_of_ne_nil _ hnil]
    exact fun h => hname.noSlash (List.mem_of_getLast? h)
  rw [names_eq, if_neg hlast, List.append_nil, steps, steps, hsteps, toList_join hne, hstem,
    List.append_assoc, List.singleton_append, parts_append_slash, parts_of_noSlash hname.noSlash]
  simp [hnil]

theorem join_inj {name' : String} (hne : directory ≠ "")
    (h : join directory name = join directory name') : name = name' := by
  have hlist := congrArg String.toList h
  rw [toList_join hne, toList_join hne] at hlist
  exact String.toList_injective (List.append_cancel_left hlist)

theorem isAbsolute_join (hne : directory ≠ "") :
    isAbsolute (join directory name) = isAbsolute directory := by
  rw [isAbsolute, isAbsolute, toList_join hne, stem, List.append_assoc,
    List.head?_append_of_ne_nil _ (toList_ne_nil hne)]

theorem join_ne_empty (hname : name ≠ "") : join directory name ≠ "" := by
  rw [join]
  split <;> simp [String.append_eq_empty_iff, hname]

theorem lastName_join (hne : directory ≠ "") (hname : IsName name) :
    lastName (join directory name) = name := by
  obtain ⟨front, hstem, -⟩ := exists_stem_eq directory
  rw [lastName, toList_join hne, hstem, List.append_assoc, List.singleton_append,
    parts_append_slash, parts_of_noSlash hname.noSlash]
  simp

end Path

/-! ## Nodes of a tree -/

namespace Node

/-- The entries of every directory have names of their own, which are such as entries can have. -/
inductive WellFormed : Node → Prop
  | regular {contents : FileContents} : WellFormed (.regular contents)
  | link {target : String} : WellFormed (.link target)
  | directory {entries : List (String × Node)} :
      (entries.map Prod.fst).Nodup → (∀ e ∈ entries, Path.IsName e.1) →
      (∀ e ∈ entries, WellFormed e.2) → WellFormed (.directory entries)

variable {node child : Node} {entries : List (String × Node)} {name : String}
  {location : List String}

theorem mem_of_child? (h : child? name entries = some child) : (name, child) ∈ entries := by
  obtain ⟨front, back, rfl, -⟩ := List.lookup_eq_some_iff.1 h
  simp

/-- An entry is found by its name. -/
theorem child?_eq_some_iff (h : (entries.map Prod.fst).Nodup) :
    child? name entries = some child ↔ (name, child) ∈ entries := by
  refine ⟨mem_of_child?, ?_⟩
  intro hmem
  obtain ⟨front, back, rfl⟩ := List.append_of_mem hmem
  rw [List.map_append, List.map_cons, List.nodup_append] at h
  refine List.lookup_eq_some_iff.2 ⟨front, back, rfl, ?_⟩
  intro e he
  have hne := h.2.2 e.1 (List.mem_map_of_mem he) name List.mem_cons_self
  simpa using hne.symm

theorem at?_append (node : Node) (location rest : List String) :
    node.at? (location ++ rest) = (node.at? location).bind fun inner => inner.at? rest := by
  induction location generalizing node with
  | nil => rfl
  | cons name location ih =>
    cases node with
    | regular contents => rfl
    | link target => rfl
    | directory entries =>
      rw [List.cons_append, at?, at?]
      cases child? name entries with
      | none => rfl
      | some child => exact ih child

theorem at?_concat (h : node.at? location = some (.directory entries)) :
    node.at? (location ++ [name]) = child? name entries := by
  rw [at?_append, h, Option.bind_some, at?]
  cases child? name entries <;> rfl

theorem WellFormed.at? (h : node.WellFormed) (hat : node.at? location = some child) :
    child.WellFormed := by
  induction location generalizing node with
  | nil =>
    cases hat
    exact h
  | cons name location ih =>
    cases h with
    | regular => cases hat
    | link => cases hat
    | directory hnodup hnames hentries =>
      obtain ⟨inner, hchild, hat⟩ := Option.bind_eq_some_iff.1 hat
      exact ih (hentries _ (mem_of_child? hchild)) hat

end Node

/-! ## Following names -/

namespace FileTree

variable {tree : FileTree} {links left : Nat} {location found : List String} {names : List String}
  {directory name : String} {entries : List (String × Node)} {node : Node}

theorem follow_nil : tree.follow links location [] = .ok (location, links) := by
  rw [follow]

/-- What a name in a directory leads to. -/
theorem follow_cons (h : tree.top.at? location = some (.directory entries)) :
    tree.follow links location (name :: names) =
      if name = "." then tree.follow links location names
      else if name = ".." then tree.follow links location.dropLast names
      else match Node.child? name entries with
        | none => .error .notFound
        | some (.link target) =>
          match links with
          | 0 => .error .tooManyLinks
          | left + 1 => tree.follow left (origin location target) (Path.names target ++ names)
        | some _ => tree.follow links (location ++ [name]) names := by
  rw [follow, h]
  cases links <;> rfl

/-- Names are followed one after the other. -/
theorem follow_append (tree : FileTree) (links : Nat) (location names rest : List String) :
    tree.follow links location (names ++ rest) =
      tree.follow links location names >>= fun reached => tree.follow reached.2 reached.1 rest := by
  fun_induction follow tree links location names with
  | case1 => rfl
  | case2 links location names entries hdir ih =>
    rw [List.cons_append, follow_cons hdir, if_pos rfl, ih]
  | case3 links location names entries hdir hdot ih =>
    rw [List.cons_append, follow_cons hdir, if_neg hdot, if_pos rfl, ih]
  | case4 =>
    rename_i hdir hdot hdotDot hchild
    rw [List.cons_append, follow_cons hdir, if_neg hdot, if_neg hdotDot, hchild]
    rfl
  | case5 =>
    rename_i hdir hdot hdotDot target hchild
    rw [List.cons_append, follow_cons hdir, if_neg hdot, if_neg hdotDot, hchild]
    rfl
  | case6 =>
    rename_i hdir hdot hdotDot target hchild left ih
    rw [List.cons_append, follow_cons hdir, if_neg hdot, if_neg hdotDot, hchild, ← ih,
      List.append_assoc]
  | case7 =>
    rename_i hdir hdot hdotDot child hlink hchild ih
    rw [List.cons_append, follow_cons hdir, if_neg hdot, if_neg hdotDot, hchild, ← ih]
    cases child with
    | link target => exact absurd rfl (hlink target)
    | _ => rfl
  | case8 =>
    rename_i node hother hat
    rw [List.cons_append, follow, hat]
    cases node with
    | directory entries => exact absurd rfl (hother entries)
    | _ => rfl
  | case9 =>
    rename_i hnone
    rw [List.cons_append, follow, hnone]
    rfl

theorem eq_of_follow_dot (h : tree.follow links location ["."] = .ok (found, left)) :
    found = location ∧ left = links := by
  rw [follow] at h
  split at h
  · rw [if_pos rfl, follow_nil] at h
    cases h
    exact ⟨rfl, rfl⟩
  · cases h
  · cases h

/-- The name of an entry leads to where the entry stands, or to where it links. -/
theorem follow_name (h : tree.top.at? location = some (.directory entries))
    (hname : Path.IsName name) :
    tree.follow links location [name] =
      match Node.child? name entries with
      | none => .error .notFound
      | some (.link target) => tree.followLink links location target
      | some _ => .ok (location ++ [name], links) := by
  rw [follow_cons h, if_neg hname.ne_dot, if_neg hname.ne_dotDot]
  split
  · rfl
  · cases links with
    | zero => rfl
    | succ left => rw [List.append_nil, followLink]
  · rw [follow_nil]

/-! ## Paths -/

/-- The path leads to the node, which is at the location. -/
def Leads (tree : FileTree) (path : String) (location : List String) (node : Node) : Prop :=
  (∃ links, tree.resolve path = .ok (location, links)) ∧ tree.top.at? location = some node

/-- The path leads neither to a file nor to a directory. -/
def Broken (tree : FileTree) (path : String) : Prop :=
  (∀ location contents, ¬ tree.Leads path location (.regular contents)) ∧
    ∀ location entries, ¬ tree.Leads path location (.directory entries)

variable {other : List String} {node' : Node} {path : String}

theorem Leads.unique (h : tree.Leads path location node) (h' : tree.Leads path other node') :
    location = other ∧ node = node' := by
  obtain ⟨⟨links, hlinks⟩, hnode⟩ := h
  obtain ⟨⟨links', hlinks'⟩, hnode'⟩ := h'
  cases hlinks.symm.trans hlinks'
  exact ⟨rfl, Option.some.inj (hnode.symm.trans hnode')⟩

theorem Leads.ne_empty (h : tree.Leads path location node) : path ≠ "" := by
  rintro rfl
  obtain ⟨⟨links, hlinks⟩, -⟩ := h
  cases hlinks

theorem broken_of_resolve {fault : FileFault} (h : tree.resolve path = .error fault) :
    tree.Broken path := by
  refine ⟨?_, ?_⟩ <;>
  · rintro location x ⟨⟨links, hlinks⟩, -⟩
    cases h.symm.trans hlinks

theorem broken_of_at? (h : tree.resolve path = .ok (location, links))
    (hfile : ∀ contents, tree.top.at? location ≠ some (.regular contents))
    (hdirectory : ∀ entries, tree.top.at? location ≠ some (.directory entries)) :
    tree.Broken path := by
  refine ⟨?_, ?_⟩
  · rintro found contents ⟨⟨left, hleft⟩, hat⟩
    cases h.symm.trans hleft
    exact hfile contents hat
  · rintro found entries ⟨⟨left, hleft⟩, hat⟩
    cases h.symm.trans hleft
    exact hdirectory entries hat

/-- The path of an entry is resolved by going on from the directory. -/
theorem resolve_join (h : tree.resolve directory = .ok (location, links))
    (hname : Path.IsName name) :
    tree.resolve (Path.join directory name) = tree.follow links location [name] := by
  have hne : directory ≠ "" := by
    rintro rfl
    cases h
  rw [resolve, if_neg hne, Path.names_eq] at h
  have hsteps : tree.follow linkLimit (origin tree.workingDirectory directory)
      (Path.steps directory) = .ok (location, links) := by
    split at h
    · -- the slash at the end asks for the directory in which the walk is anyway
      rw [follow_append, Success.bind_eq_ok_iff] at h
      obtain ⟨⟨found, left⟩, hsteps, hdot⟩ := h
      obtain ⟨rfl, rfl⟩ := eq_of_follow_dot hdot
      exact hsteps
    · rwa [List.append_nil] at h
  rw [resolve, if_neg (Path.join_ne_empty hname.ne_empty), Path.names_join hne hname, origin,
    Path.isAbsolute_join hne, ← origin, follow_append, hsteps]
  rfl

/-! ## Visiting a link -/

variable {here : Ancestor} {above : List Ancestor} {target : String}

/-- What a link leads to decides how it is visited. -/
theorem visit_link : tree.visit links here above name (.link target) =
    match tree.followLink links here.location target with
    | .error fault => .error (.unresolved (Path.join here.path name) fault)
    | .ok (location, left) =>
      match tree.top.at? location with
      | some (.regular contents) => .ok [⟨Path.join here.path name, name, contents⟩]
      | some (.directory entries) =>
        match (here :: above).find? fun a => a.location = location with
        | some a => .error (.loop (Path.join here.path name) a.path)
        | none =>
          tree.visitAll left ⟨Path.join here.path name, location⟩ (here :: above) entries
      | _ => .error (.unresolved (Path.join here.path name) .notFound) := by
  rw [visit]
  split
  · rename_i hfollow
    rw [hfollow]
  · rename_i hfollow
    exact hfollow ▸ rfl

end FileTree

end TodoAudit
