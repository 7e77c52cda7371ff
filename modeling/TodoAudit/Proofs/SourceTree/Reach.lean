import Mathlib
import TodoAudit.Proofs.SourceTree.Resolution

/-!
# Where a walk comes to

Which directories a walk comes to, what it meets in them and what stands in its way, said with the
paths alone and what they lead to. `Enters` is one step into a directory and `Reaches` any number of
them. A directory is entered from the one in which it stands, and a link to a directory unless that
is one of those in which the walk is already. `turn_visit` says what a visit of an entry comes to,
and `Standing.induction` is the induction over all that a walk enters: a step into a directory goes
down in the tree, or through one of the links that are left.
-/

namespace TodoAudit

/-- The path that the fault is about. -/
def WalkFault.path : WalkFault → String
  | .unresolved path _ => path
  | .loop link _ => link

namespace FileTree

/-! ## Steps of a walk -/

/-- An entry of the directory that the walk is in, which comes first in the chain. -/
inductive Meets (tree : FileTree) : (chain : List String) → (path : String) → Node → Prop
  | entry {here name : String} {above location : List String} {entries : List (String × Node)}
      {node : Node} :
      tree.Leads here location (.directory entries) → (name, node) ∈ entries →
      Meets tree (here :: above) (Path.join here name) node

/-- The walk goes from one directory into another, the chain being those in which it is. -/
inductive Enters (tree : FileTree) : (chain chain' : List String) → Prop
  | directory {chain : List String} {path : String} {inner : List (String × Node)} :
      tree.Meets chain path (.directory inner) → Enters tree chain (path :: chain)
  | link {chain there : List String} {path target : String} {inner : List (String × Node)} :
      tree.Meets chain path (.link target) → tree.Leads path there (.directory inner) →
      (∀ a ∈ chain, ∀ node, ¬ tree.Leads a there node) → Enters tree chain (path :: chain)

/-- A link that cannot be walked: it leads nowhere, or to a directory in which the walk is. -/
inductive Blocks (tree : FileTree) : (chain : List String) → (path : String) → Prop
  | broken {chain : List String} {path target : String} :
      tree.Meets chain path (.link target) → tree.Broken path → Blocks tree chain path
  | loop {chain there : List String} {path target a : String} {node : Node}
      {inner : List (String × Node)} :
      tree.Meets chain path (.link target) → tree.Leads path there (.directory inner) →
      a ∈ chain → tree.Leads a there node → Blocks tree chain path

/-- The walk comes from one directory to another, in any number of steps. -/
def Reaches (tree : FileTree) : (chain chain' : List String) → Prop :=
  Relation.ReflTransGen tree.Enters

/-- The found file is what its path leads to, under the name at the end of the path. -/
def IsFound (tree : FileTree) (f : FoundFile) : Prop :=
  f.name = Path.lastName f.path ∧ ∃ location, tree.Leads f.path location (.regular f.contents)

/-- The file is an entry of a directory that the walk comes to. -/
def Finds (tree : FileTree) (chain : List String) (f : FoundFile) : Prop :=
  tree.IsFound f ∧ ∃ chain' node, tree.Reaches chain chain' ∧ tree.Meets chain' f.path node

/-- The path is a link that cannot be walked, in a directory that the walk comes to. -/
def BlockedAt (tree : FileTree) (chain : List String) (path : String) : Prop :=
  ∃ chain', tree.Reaches chain chain' ∧ tree.Blocks chain' path

/-! ## The state of a walk -/

/-- The directories in which a walk is, by their paths. -/
def chainOf (here : Ancestor) (above : List Ancestor) : List String :=
  (here :: above).map Ancestor.path

/-- What a visit knows of the directory that it is in is what its path leads to. -/
structure Standing (tree : FileTree) (links : Nat) (here : Ancestor) (above : List Ancestor)
    (entries : List (String × Node)) : Prop where
  resolved : tree.resolve here.path = .ok (here.location, links)
  directory : tree.top.at? here.location = some (.directory entries)
  above : ∀ a ∈ above, ∃ node, tree.Leads a.path a.location node

/-- What the visit of an entry comes to. -/
inductive Turn (tree : FileTree) (links : Nat) (here : Ancestor) (above : List Ancestor)
    (entries : List (String × Node)) (name : String) : Except WalkFault (List FoundFile) → Prop
  | file {location : List String} {contents : FileContents} :
      tree.Leads (Path.join here.path name) location (.regular contents) →
      Turn tree links here above entries name (.ok [⟨Path.join here.path name, name, contents⟩])
  | enter {left : Nat} {next : Ancestor} {inner : List (String × Node)} :
      next.path = Path.join here.path name →
      tree.Enters (chainOf here above) (chainOf next (here :: above)) →
      tree.Standing left next (here :: above) inner →
      Prod.Lex (· < ·) (· < ·) (left, sizeOf inner) (links, sizeOf entries) →
      Turn tree links here above entries name (tree.visitAll left next (here :: above) inner)
  | blocked {fault : WalkFault} :
      fault.path = Path.join here.path name →
      tree.Blocks (chainOf here above) (Path.join here.path name) →
      Turn tree links here above entries name (.error fault)

variable {tree : FileTree} {links : Nat} {here : Ancestor} {above : List Ancestor}
  {entries : List (String × Node)} {name : String} {node : Node}
  {chain : List String} {path : String}

namespace Standing

theorem leads (h : tree.Standing links here above entries) :
    tree.Leads here.path here.location (.directory entries) :=
  ⟨⟨links, h.resolved⟩, h.directory⟩

theorem leads_of_mem (h : tree.Standing links here above entries) {a : Ancestor}
    (ha : a ∈ here :: above) : ∃ node, tree.Leads a.path a.location node := by
  rcases List.mem_cons.1 ha with rfl | ha
  · exact ⟨_, h.leads⟩
  · exact h.above a ha

theorem meets (h : tree.Standing links here above entries) (hmem : (name, node) ∈ entries) :
    tree.Meets (chainOf here above) (Path.join here.path name) node :=
  .entry h.leads hmem

/-- What stands in the directory under a path is an entry of it. -/
theorem exists_entry (h : tree.Standing links here above entries)
    (hmeets : tree.Meets (chainOf here above) path node) :
    ∃ name, path = Path.join here.path name ∧ (name, node) ∈ entries := by
  cases hmeets with
  | entry hleads hmem =>
    cases (hleads.unique h.leads).2
    exact ⟨_, rfl, hmem⟩

variable (hwf : tree.top.WellFormed)
include hwf

theorem nodup (h : tree.Standing links here above entries) :
    (entries.map Prod.fst).Nodup := by
  cases hwf.at? h.directory with
  | directory hnodup _ _ => exact hnodup

theorem isName (h : tree.Standing links here above entries) (hmem : (name, node) ∈ entries) :
    Path.IsName name := by
  cases hwf.at? h.directory with
  | directory _ hnames _ => exact hnames _ hmem

/-- The path of an entry is resolved by going on from where the walk is. -/
theorem resolve_entry (h : tree.Standing links here above entries)
    (hmem : (name, node) ∈ entries) :
    tree.resolve (Path.join here.path name) =
      match node with
      | .link target => tree.followLink links here.location target
      | _ => .ok (here.location ++ [name], links) := by
  have hname := h.isName hwf hmem
  rw [resolve_join h.resolved hname, follow_name h.directory hname,
    (Node.child?_eq_some_iff (h.nodup hwf)).2 hmem]
  cases node <;> rfl

theorem at?_entry (h : tree.Standing links here above entries) (hmem : (name, node) ∈ entries) :
    tree.top.at? (here.location ++ [name]) = some node := by
  rw [Node.at?_concat h.directory]
  exact (Node.child?_eq_some_iff (h.nodup hwf)).2 hmem

/-- An entry that is no link is what its path leads to. -/
theorem leads_entry (h : tree.Standing links here above entries) (hmem : (name, node) ∈ entries)
    (hlink : ∀ target, node ≠ .link target) :
    tree.Leads (Path.join here.path name) (here.location ++ [name]) node := by
  refine ⟨⟨links, ?_⟩, h.at?_entry hwf hmem⟩
  rw [h.resolve_entry hwf hmem]
  cases node with
  | link target => exact absurd rfl (hlink target)
  | _ => rfl

theorem meets_unique {node' : Node} (h : tree.Standing links here above entries)
    (hmeets : tree.Meets (chainOf here above) path node)
    (hmeets' : tree.Meets (chainOf here above) path node') : node = node' := by
  obtain ⟨name, rfl, hmem⟩ := h.exists_entry hmeets
  obtain ⟨name', hpath, hmem'⟩ := h.exists_entry hmeets'
  cases Path.join_inj h.leads.ne_empty hpath
  have hat := (h.at?_entry hwf hmem).symm.trans (h.at?_entry hwf hmem')
  exact Option.some.inj hat

/-- A walk enters what is a directory. -/
theorem leads_of_enters (h : tree.Standing links here above entries)
    (henters : tree.Enters (chainOf here above) (path :: chainOf here above)) :
    ∃ there inner, tree.Leads path there (.directory inner) := by
  cases henters with
  | directory hmeets =>
    obtain ⟨name, rfl, hmem⟩ := h.exists_entry hmeets
    exact ⟨_, _, h.leads_entry hwf hmem (by simp)⟩
  | link _ hleads _ => exact ⟨_, _, hleads⟩

/-- What a walk enters does not block it. -/
theorem not_blocks (h : tree.Standing links here above entries)
    (henters : tree.Enters (chainOf here above) (path :: chainOf here above)) :
    ¬ tree.Blocks (chainOf here above) path := by
  intro hblocks
  obtain ⟨there, inner, hleads⟩ := h.leads_of_enters hwf henters
  cases hblocks with
  | broken _ hbroken => exact hbroken.2 _ _ hleads
  | loop hlink hleads' hmem hnode =>
    cases henters with
    | directory hdirectory => cases h.meets_unique hwf hlink hdirectory
    | link _ hleads'' hnone =>
      cases (hleads''.unique hleads').1
      exact hnone _ hmem _ hnode

end Standing

/-- What the visit of an entry comes to. -/
theorem turn_visit (hwf : tree.top.WellFormed) (h : tree.Standing links here above entries)
    (hmem : (name, node) ∈ entries) :
    tree.Turn links here above entries name (tree.visit links here above name node) := by
  have hresolve := h.resolve_entry hwf hmem
  cases node with
  | regular contents =>
    rw [visit]
    exact .file ⟨⟨links, hresolve⟩, h.at?_entry hwf hmem⟩
  | directory inner =>
    rw [visit]
    refine .enter rfl (.directory (h.meets hmem)) ⟨hresolve, h.at?_entry hwf hmem, ?_⟩ ?_
    · exact fun a ha => h.leads_of_mem ha
    · refine Prod.Lex.right _ ?_
      have := List.sizeOf_lt_of_mem hmem
      simp only [Prod.mk.sizeOf_spec, Node.directory.sizeOf_spec] at this
      omega
  | link target =>
    have hmeets := h.meets hmem
    rw [visit_link]
    dsimp only at hresolve
    split
    · rename_i fault hfollow
      rw [hfollow] at hresolve
      exact .blocked rfl (.broken hmeets (broken_of_resolve hresolve))
    · rename_i location left hfollow
      rw [hfollow] at hresolve
      split
      · rename_i contents hat
        exact .file ⟨⟨left, hresolve⟩, hat⟩
      · rename_i inner hat
        have hleads : tree.Leads (Path.join here.path name) location (.directory inner) :=
          ⟨⟨left, hresolve⟩, hat⟩
        split
        · rename_i a ha
          have hmem := List.mem_of_find?_eq_some ha
          have hlocation : a.location = location := by simpa using List.find?_some ha
          obtain ⟨node, hnode⟩ := h.leads_of_mem hmem
          exact .blocked rfl
            (.loop hmeets hleads (List.mem_map_of_mem hmem) (hlocation ▸ hnode))
        · rename_i hnone
          refine .enter rfl (.link hmeets hleads ?_) ⟨hresolve, hat, ?_⟩ ?_
          · intro p hp node hnode
            obtain ⟨a, ha, rfl⟩ := List.mem_map.1 hp
            obtain ⟨node', hnode'⟩ := h.leads_of_mem ha
            exact List.find?_eq_none.1 hnone a ha (by simpa using (hnode'.unique hnode).1)
          · exact fun a ha => h.leads_of_mem ha
          · exact Prod.Lex.left _ _ (lt_of_followLink_eq_ok hfollow)
      · rename_i hfile hdirectory
        exact .blocked rfl (.broken hmeets (broken_of_at? hresolve hfile hdirectory))

theorem Enters.exists_meets {chain' : List String} (h : tree.Enters chain chain') :
    ∃ path node, chain' = path :: chain ∧ tree.Meets chain path node := by
  cases h with
  | directory hmeets => exact ⟨_, _, rfl, hmeets⟩
  | link hmeets _ _ => exact ⟨_, _, rfl, hmeets⟩

theorem Blocks.exists_meets (h : tree.Blocks chain path) :
    ∃ target, tree.Meets chain path (.link target) := by
  cases h with
  | broken hmeets _ => exact ⟨_, hmeets⟩
  | loop hmeets _ _ _ => exact ⟨_, hmeets⟩

namespace Standing

/-- Where a walk goes on, it stands again, with less before it. -/
theorem exists_of_enters (hwf : tree.top.WellFormed) (h : tree.Standing links here above entries)
    (henters : tree.Enters (chainOf here above) chain) :
    ∃ left next inner, chain = chainOf next (here :: above) ∧
      tree.Standing left next (here :: above) inner ∧
      Prod.Lex (· < ·) (· < ·) (left, sizeOf inner) (links, sizeOf entries) := by
  obtain ⟨path, node, rfl, hmeets⟩ := henters.exists_meets
  obtain ⟨name, rfl, hmem⟩ := h.exists_entry hmeets
  have hturn := turn_visit hwf h hmem
  generalize tree.visit links here above name node = result at hturn
  cases hturn with
  | file hfile =>
    obtain ⟨there, inner, hleads⟩ := h.leads_of_enters hwf henters
    cases (hfile.unique hleads).2
  | enter hpath _ hstanding hlt => exact ⟨_, _, _, by rw [← hpath]; rfl, hstanding, hlt⟩
  | blocked _ hblocks => exact absurd hblocks (h.not_blocks hwf henters)

/-- To prove something of every directory in which a walk can be, it is enough to prove it of one
when it holds of all that the walk enters from there. -/
theorem induction {motive : Nat → Ancestor → List Ancestor → List (String × Node) → Prop}
    {links : Nat} {here : Ancestor} {above : List Ancestor} {entries : List (String × Node)}
    (step : ∀ links here above entries, tree.Standing links here above entries →
      (∀ left next inner, tree.Standing left next (here :: above) inner →
        Prod.Lex (· < ·) (· < ·) (left, sizeOf inner) (links, sizeOf entries) →
        motive left next (here :: above) inner) →
      motive links here above entries)
    (h : tree.Standing links here above entries) : motive links here above entries :=
  step links here above entries h fun _ _ _ h' _hlt => induction step h'
termination_by (links, sizeOf entries)
decreasing_by exact _hlt

/-- A walk comes to finitely many directories: it ends. -/
theorem finite_reaches (hwf : tree.top.WellFormed)
    (h : tree.Standing links here above entries) :
    {chain | tree.Reaches (chainOf here above) chain}.Finite := by
  refine h.induction (motive := fun _ here above _ =>
    {chain | tree.Reaches (chainOf here above) chain}.Finite) ?_
  intro links here above entries h ih
  have hentered : {chain | tree.Enters (chainOf here above) chain}.Finite := by
    refine (List.finite_toSet
      (entries.map fun e => Path.join here.path e.1 :: chainOf here above)).subset ?_
    intro chain henters
    obtain ⟨path, node, rfl, hmeets⟩ := henters.exists_meets
    obtain ⟨name, rfl, hmem⟩ := h.exists_entry hmeets
    exact List.mem_map.2 ⟨_, hmem, rfl⟩
  have hbelow : ∀ mid, tree.Enters (chainOf here above) mid →
      {chain | tree.Reaches mid chain}.Finite := by
    intro mid henters
    obtain ⟨left, next, inner, rfl, h', hlt⟩ := h.exists_of_enters hwf henters
    exact ih left next inner h' hlt
  refine ((hentered.biUnion hbelow).insert (chainOf here above)).subset ?_
  intro chain hreaches
  rcases Relation.ReflTransGen.cases_head hreaches with rfl | ⟨mid, henters, hreaches⟩
  · exact Set.mem_insert _ _
  · exact Set.mem_insert_of_mem _ (Set.mem_biUnion henters hreaches)

end Standing

end FileTree

end TodoAudit
