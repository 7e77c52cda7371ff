import Mathlib
import TodoAudit.Proofs.SourceTree.Reach

/-!
# What a search finds

A walk either comes to an obstacle and then fails, or finds every file that it comes to, each once
(`isOutcome_walk`). The files that a search finds are those of them whose names end with one of the
extensions, and which obstacle makes it fail does not depend on the extensions
(`find_searches`). No file is found twice because the paths below two entries of a directory differ
in the name of the entry (`Path.nameBelow_eq`).
-/

namespace TodoAudit

/-! ## Paths below a directory -/

namespace Path

variable {directory name path : String}

/-- The name of the entry of the directory by way of which the path goes. -/
def nameBelow (directory path : String) : List Char :=
  (path.toList.drop (stem directory).length).takeWhile fun c => decide (c ≠ '/')

theorem toList_prefix_stem (directory : String) : directory.toList <+: stem directory :=
  List.prefix_append _ _

theorem stem_join (hne : directory ≠ "") (hname : IsName name) :
    stem (join directory name) = stem directory ++ name.toList ++ ['/'] := by
  have hlast : (join directory name).toList.getLast? ≠ some '/' := by
    rw [toList_join hne, List.getLast?_append_of_ne_nil _ (toList_ne_nil hname.ne_empty)]
    exact fun h => hname.noSlash (List.mem_of_getLast? h)
  rw [stem, if_neg hlast, toList_join hne]

theorem nameBelow_eq (hne : directory ≠ "") (hname : IsName name)
    (h : path = join directory name ∨ stem (join directory name) <+: path.toList) :
    nameBelow directory path = name.toList := by
  have hchars : ∀ c ∈ name.toList, decide (c ≠ '/') = true := by
    intro c hc
    exact decide_eq_true fun heq => hname.noSlash (heq ▸ hc)
  rcases h with rfl | ⟨rest, hrest⟩
  · rw [nameBelow, toList_join hne, List.drop_left, List.takeWhile_eq_self_iff.2 hchars]
  · rw [nameBelow, ← hrest, stem_join hne hname, List.append_assoc, List.append_assoc,
      List.drop_left, List.takeWhile_append_of_pos hchars]
    simp

end Path

namespace FileTree

/-! ## Outcomes -/

/-- The result is all files with a property, each once, if there is no obstacle, and otherwise a
fault about one. -/
inductive IsOutcome (P : FoundFile → Prop) (B : String → Prop) :
    Except WalkFault (List FoundFile) → Prop
  | found {files : List FoundFile} :
      (∀ path, ¬ B path) → (∀ f, f ∈ files ↔ P f) → (files.map FoundFile.path).Nodup →
      IsOutcome P B (.ok files)
  | fault {fault : WalkFault} : B fault.path → IsOutcome P B (.error fault)

variable {P Q : FoundFile → Prop} {B C : String → Prop}
  {x y : Except WalkFault (List FoundFile)}

theorem IsOutcome.congr (h : IsOutcome P B x) (hP : ∀ f, P f ↔ Q f) (hB : ∀ path, B path ↔ C path) :
    IsOutcome Q C x := by
  rwa [funext fun f => propext (hP f), funext fun path => propext (hB path)] at h

/-- The outcomes of two computations in turn, which find different files. -/
theorem IsOutcome.append (hx : IsOutcome P B x) (hy : IsOutcome Q C y)
    (hne : ∀ f g, P f → Q g → f.path ≠ g.path) :
    IsOutcome (fun f => P f ∨ Q f) (fun path => B path ∨ C path)
      (do let found ← x; return found ++ (← y)) := by
  cases hx with
  | fault hB => exact .fault (.inl hB)
  | @found files hB hmem hnodup =>
    cases hy with
    | fault hC => exact .fault (.inr hC)
    | @found files' hC hmem' hnodup' =>
      refine .found ?_ ?_ ?_
      · exact fun path h => h.elim (hB path) (hC path)
      · intro f
        rw [List.mem_append, hmem, hmem']
      · rw [List.map_append]
        refine hnodup.append hnodup' ?_
        intro path hpath hpath'
        obtain ⟨f, hf, rfl⟩ := List.mem_map.1 hpath
        obtain ⟨g, hg, hfg⟩ := List.mem_map.1 hpath'
        exact hne f g ((hmem f).1 hf) ((hmem' g).1 hg) hfg.symm

/-! ## Entries of a directory -/

variable {tree : FileTree} {links : Nat} {here : Ancestor} {above : List Ancestor}
  {entries : List (String × Node)} {name entry path directory : String} {node : Node}
  {chain chain' : List String} {f : FoundFile}

/-- The file is the entry itself, or one that the walk comes to by way of the entry. -/
def FindsBy (tree : FileTree) (chain : List String) (entry : String) (f : FoundFile) : Prop :=
  (tree.IsFound f ∧ f.path = entry) ∨
    (tree.Enters chain (entry :: chain) ∧ tree.Finds (entry :: chain) f)

/-- The obstacle is the entry itself, or one that the walk comes to by way of the entry. -/
def BlockedBy (tree : FileTree) (chain : List String) (entry path : String) : Prop :=
  (tree.Blocks chain path ∧ path = entry) ∨
    (tree.Enters chain (entry :: chain) ∧ tree.BlockedAt (entry :: chain) path)

/-- There is one found file for a path that leads to a file. -/
theorem isFound_iff {location : List String} {contents : FileContents}
    (h : tree.Leads path location (.regular contents)) :
    tree.IsFound f ∧ f.path = path ↔ f = ⟨path, Path.lastName path, contents⟩ := by
  constructor
  · obtain ⟨path', name, contents'⟩ := f
    rintro ⟨⟨hname, location', h'⟩, hpath⟩
    dsimp only at hname h' hpath
    subst hpath
    cases (h.unique h').2
    rw [hname]
  · rintro rfl
    exact ⟨⟨rfl, location, h⟩, rfl⟩

theorem Meets.stem_isPrefix (h : tree.Meets (directory :: chain) path node) :
    Path.stem directory <+: path.toList := by
  cases h with
  | entry hleads _ =>
    rw [Path.toList_join hleads.ne_empty]
    exact List.prefix_append _ _

theorem Reaches.stem_isPrefix (h : tree.Reaches (directory :: chain) chain') :
    ∃ inner above, chain' = inner :: above ∧ Path.stem directory <+: Path.stem inner := by
  induction h with
  | refl => exact ⟨directory, chain, rfl, List.prefix_rfl⟩
  | tail _ henters ih =>
    obtain ⟨inner, above, rfl, hstem⟩ := ih
    obtain ⟨path, node, rfl, hmeets⟩ := henters.exists_meets
    refine ⟨path, _, rfl, ?_⟩
    exact hstem.trans (hmeets.stem_isPrefix.trans (Path.toList_prefix_stem path))

/-- The paths of the files tell by way of which entry they are found. -/
theorem FindsBy.nameBelow_eq (h : tree.FindsBy chain (Path.join directory name) f)
    (hne : directory ≠ "") (hname : Path.IsName name) :
    Path.nameBelow directory f.path = name.toList := by
  refine Path.nameBelow_eq hne hname ?_
  rcases h with ⟨-, hpath⟩ | ⟨-, -, chain', node, hreaches, hmeets⟩
  · exact .inl hpath
  · obtain ⟨inner, above, rfl, hstem⟩ := hreaches.stem_isPrefix
    exact .inr (hstem.trans hmeets.stem_isPrefix)

namespace Standing

theorem finds_iff (h : tree.Standing links here above entries) :
    tree.Finds (chainOf here above) f ↔
      ∃ e ∈ entries, tree.FindsBy (chainOf here above) (Path.join here.path e.1) f := by
  constructor
  · rintro ⟨hfound, chain', node, hreaches, hmeets⟩
    rcases Relation.ReflTransGen.cases_head hreaches with rfl | ⟨mid, henters, hreaches⟩
    · obtain ⟨name, hpath, hmem⟩ := h.exists_entry hmeets
      exact ⟨_, hmem, .inl ⟨hfound, hpath⟩⟩
    · obtain ⟨entry, node', rfl, hmeets'⟩ := henters.exists_meets
      obtain ⟨name, rfl, hmem⟩ := h.exists_entry hmeets'
      exact ⟨_, hmem, .inr ⟨henters, hfound, chain', node, hreaches, hmeets⟩⟩
  · rintro ⟨e, hmem, ⟨hfound, hpath⟩ | ⟨henters, hfound, chain', node, hreaches, hmeets⟩⟩
    · exact ⟨hfound, _, _, .refl, hpath ▸ h.meets hmem⟩
    · exact ⟨hfound, chain', node, .head henters hreaches, hmeets⟩

theorem blockedAt_iff (h : tree.Standing links here above entries) :
    tree.BlockedAt (chainOf here above) path ↔
      ∃ e ∈ entries, tree.BlockedBy (chainOf here above) (Path.join here.path e.1) path := by
  constructor
  · rintro ⟨chain', hreaches, hblocks⟩
    rcases Relation.ReflTransGen.cases_head hreaches with rfl | ⟨mid, henters, hreaches⟩
    · obtain ⟨target, hmeets⟩ := hblocks.exists_meets
      obtain ⟨name, hpath, hmem⟩ := h.exists_entry hmeets
      exact ⟨_, hmem, .inl ⟨hblocks, hpath⟩⟩
    · obtain ⟨entry, node', rfl, hmeets'⟩ := henters.exists_meets
      obtain ⟨name, rfl, hmem⟩ := h.exists_entry hmeets'
      exact ⟨_, hmem, .inr ⟨henters, chain', hreaches, hblocks⟩⟩
  · rintro ⟨e, hmem, ⟨hblocks, -⟩ | ⟨henters, chain', hreaches, hblocks⟩⟩
    · exact ⟨_, .refl, hblocks⟩
    · exact ⟨chain', .head henters hreaches, hblocks⟩

/-- What the visit of an entry comes to, when it is known of all that the walk enters. -/
theorem isOutcome_visit (hwf : tree.top.WellFormed) (h : tree.Standing links here above entries)
    (hmem : (name, node) ∈ entries)
    (ih : ∀ left next inner, tree.Standing left next (here :: above) inner →
      Prod.Lex (· < ·) (· < ·) (left, sizeOf inner) (links, sizeOf entries) →
      IsOutcome (tree.Finds (chainOf next (here :: above)))
        (tree.BlockedAt (chainOf next (here :: above)))
        (tree.visitAll left next (here :: above) inner)) :
    IsOutcome (tree.FindsBy (chainOf here above) (Path.join here.path name))
      (tree.BlockedBy (chainOf here above) (Path.join here.path name))
      (tree.visit links here above name node) := by
  have hturn := turn_visit hwf h hmem
  generalize tree.visit links here above name node = result at hturn
  cases hturn with
  | @file location contents hleads =>
    have hname : Path.lastName (Path.join here.path name) = name :=
      Path.lastName_join h.leads.ne_empty (h.isName hwf hmem)
    have hnot : ¬ tree.Enters (chainOf here above)
        (Path.join here.path name :: chainOf here above) := by
      intro henters
      obtain ⟨there, inner, hleads'⟩ := h.leads_of_enters hwf henters
      cases (hleads.unique hleads').2
    refine .found ?_ ?_ (by simp)
    · rintro path (⟨hblocks, rfl⟩ | ⟨henters, -⟩)
      · cases hblocks with
        | broken _ hbroken => exact hbroken.1 _ _ hleads
        | loop _ hleads' _ _ => cases (hleads.unique hleads').2
      · exact hnot henters
    · intro f
      have hfound := isFound_iff (f := f) hleads
      rw [hname] at hfound
      rw [List.mem_singleton, ← hfound]
      refine ⟨.inl, ?_⟩
      rintro (hfile | ⟨henters, -⟩)
      · exact hfile
      · exact absurd henters hnot
  | @enter left next inner hpath henters hstanding hlt =>
    have hchain : chainOf next (here :: above) =
        Path.join here.path name :: chainOf here above := by rw [← hpath]; rfl
    have houtcome := ih left next inner hstanding hlt
    rw [hchain] at henters houtcome
    obtain ⟨there, inner', hleads⟩ := h.leads_of_enters hwf henters
    refine houtcome.congr ?_ ?_
    · intro f
      refine ⟨fun hfinds => .inr ⟨henters, hfinds⟩, ?_⟩
      rintro (⟨⟨-, location, hfile⟩, hpath⟩ | ⟨-, hfinds⟩)
      · rw [hpath] at hfile
        cases (hfile.unique hleads).2
      · exact hfinds
    · intro path
      refine ⟨fun hblocked => .inr ⟨henters, hblocked⟩, ?_⟩
      rintro (⟨hblocks, rfl⟩ | ⟨-, hblocked⟩)
      · exact absurd hblocks (h.not_blocks hwf henters)
      · exact hblocked
  | blocked hpath hblocks => exact .fault (.inl ⟨hpath ▸ hblocks, hpath⟩)

/-- What the visit of the entries of a directory comes to. -/
theorem isOutcome_visitAll (hwf : tree.top.WellFormed)
    (h : tree.Standing links here above entries) :
    IsOutcome (tree.Finds (chainOf here above)) (tree.BlockedAt (chainOf here above))
      (tree.visitAll links here above entries) := by
  refine h.induction (motive := fun links here above entries =>
    IsOutcome (tree.Finds (chainOf here above)) (tree.BlockedAt (chainOf here above))
      (tree.visitAll links here above entries)) ?_
  intro links here above entries h ih
  -- the induction on the entries is on those that are left, which are all in the directory
  have hleft : ∀ rest, rest <:+ entries →
      IsOutcome (fun f => ∃ e ∈ rest, tree.FindsBy (chainOf here above) (Path.join here.path e.1) f)
        (fun path => ∃ e ∈ rest,
          tree.BlockedBy (chainOf here above) (Path.join here.path e.1) path)
        (tree.visitAll links here above rest) := by
    intro rest hrest
    induction rest with
    | nil =>
      rw [visitAll]
      exact .found (by simp) (by simp) (by simp)
    | cons e rest ihrest =>
      obtain ⟨name, node⟩ := e
      have hmem : (name, node) ∈ entries := hrest.subset List.mem_cons_self
      have hsuffix : rest <:+ entries := (List.suffix_cons _ _).trans hrest
      rw [visitAll]
      refine ((h.isOutcome_visit hwf hmem ih).append (ihrest hsuffix) ?_).congr ?_ ?_
      · rintro f g hf ⟨e, he, hg⟩ hpath
        have hnodup := (h.nodup hwf).sublist (hrest.sublist.map Prod.fst)
        have hname := hf.nameBelow_eq h.leads.ne_empty (h.isName hwf hmem)
        have hname' := hg.nameBelow_eq h.leads.ne_empty (h.isName hwf (hsuffix.subset he))
        have heq : name = e.1 := String.toList_injective (by rw [← hname, ← hname', hpath])
        rw [List.map_cons, List.nodup_cons] at hnodup
        exact hnodup.1 (List.mem_map.2 ⟨e, he, heq.symm⟩)
      · exact fun f => by simp
      · exact fun path => by simp
  exact (hleft entries List.suffix_rfl).congr (fun f => h.finds_iff.symm)
    fun path => h.blockedAt_iff.symm

end Standing

/-! ## Walks -/

variable {root : String}

/-- The paths that a walk visits: the root, and the entries of the directories it comes to. -/
inductive Visits (tree : FileTree) (root : String) : String → Prop
  | root : Visits tree root root
  | entry {chain : List String} {path : String} {node : Node} :
      tree.Reaches [root] chain → tree.Meets chain path node → Visits tree root path

/-- What a walk cannot get past: a root that is not there, or a link that cannot be walked. -/
inductive Obstructs (tree : FileTree) (root : String) : String → Prop
  | root : tree.Broken root → Obstructs tree root root
  | link {path : String} : tree.BlockedAt [root] path → Obstructs tree root path

theorem Meets.leads (h : tree.Meets (directory :: chain) path node) :
    ∃ location entries, tree.Leads directory location (.directory entries) := by
  cases h with
  | entry hleads _ => exact ⟨_, _, hleads⟩

/-- From what is no directory a walk does not come to any other place. -/
theorem Reaches.eq_of_leads_file {location : List String} {contents : FileContents}
    (hleads : tree.Leads root location (.regular contents)) (h : tree.Reaches [root] chain) :
    chain = [root] := by
  rcases Relation.ReflTransGen.cases_head h with rfl | ⟨mid, henters, -⟩
  · rfl
  · obtain ⟨path, node, -, hmeets⟩ := henters.exists_meets
    obtain ⟨there, entries, hleads'⟩ := hmeets.leads
    cases (hleads.unique hleads').2

theorem not_meets_of_leads_file {location : List String} {contents : FileContents}
    (hleads : tree.Leads root location (.regular contents)) (h : tree.Reaches [root] chain) :
    ¬ tree.Meets chain path node := by
  intro hmeets
  rw [h.eq_of_leads_file hleads] at hmeets
  obtain ⟨there, entries, hleads'⟩ := hmeets.leads
  cases (hleads.unique hleads').2

/-- What a walk finds in a tree. -/
theorem isOutcome_walk (hwf : tree.top.WellFormed) (root : String) :
    IsOutcome (fun f => tree.IsFound f ∧ tree.Visits root f.path) (tree.Obstructs root)
      (tree.walk root) := by
  rw [walk]
  split
  · rename_i fault hresolve
    exact .fault (.root (broken_of_resolve hresolve))
  · rename_i location links hresolve
    split
    · rename_i contents hat
      have hleads : tree.Leads root location (.regular contents) := ⟨⟨links, hresolve⟩, hat⟩
      refine .found ?_ ?_ (by simp)
      · rintro path (hbroken | ⟨chain, hreaches, hblocks⟩)
        · exact hbroken.1 _ _ hleads
        · obtain ⟨target, hmeets⟩ := hblocks.exists_meets
          exact not_meets_of_leads_file hleads hreaches hmeets
      · intro f
        rw [List.mem_singleton, ← isFound_iff hleads]
        refine and_congr_right fun _ => ⟨fun hpath => hpath ▸ .root, ?_⟩
        intro hvisits
        cases hvisits with
        | root => rfl
        | entry hreaches hmeets => exact absurd hmeets (not_meets_of_leads_file hleads hreaches)
    · rename_i entries hat
      have hstanding : tree.Standing links ⟨root, location⟩ [] entries := ⟨hresolve, hat, by simp⟩
      refine (hstanding.isOutcome_visitAll hwf).congr ?_ ?_
      · intro f
        constructor
        · rintro ⟨hfound, chain, node, hreaches, hmeets⟩
          exact ⟨hfound, .entry hreaches hmeets⟩
        · rintro ⟨hfound, hvisits⟩
          refine ⟨hfound, ?_⟩
          obtain ⟨-, location', hleads'⟩ := hfound
          generalize f.path = path at hvisits hleads'
          cases hvisits with
          | root => cases (hstanding.leads.unique hleads').2
          | entry hreaches hmeets => exact ⟨_, _, hreaches, hmeets⟩
      · intro path
        refine ⟨fun hblocked => .link hblocked, ?_⟩
        rintro (hbroken | hblocked)
        · exact absurd hstanding.leads (hbroken.2 _ _)
        · exact hblocked
    · rename_i hfile hdirectory
      exact .fault (.root (broken_of_at? hresolve hfile hdirectory))

/-- A walk is in finitely many chains of directories. -/
theorem finite_reaches (hwf : tree.top.WellFormed) (root : String) :
    {chain | tree.Reaches [root] chain}.Finite := by
  by_cases h : ∃ location entries, tree.Leads root location (.directory entries)
  · obtain ⟨location, entries, ⟨⟨links, hresolve⟩, hat⟩⟩ := h
    have hstanding : tree.Standing links ⟨root, location⟩ [] entries := ⟨hresolve, hat, by simp⟩
    exact hstanding.finite_reaches hwf
  · refine (Set.finite_singleton [root]).subset ?_
    intro chain hreaches
    rcases Relation.ReflTransGen.cases_head hreaches with rfl | ⟨mid, henters, -⟩
    · rfl
    · obtain ⟨path, node, -, hmeets⟩ := henters.exists_meets
      exact absurd hmeets.leads h

/-! ## Searches -/

/-- What a search finds for each list of extensions. -/
structure IsSearch (tree : FileTree) (root : String) (found : List String → List FoundFile) :
    Prop where
  mem_iff : ∀ extensions f, f ∈ found extensions ↔ tree.Visits root f.path ∧ tree.IsFound f ∧
    ∃ ext ∈ extensions, ext.toList <:+ f.name.toList
  nodup : ∀ extensions, ((found extensions).map FoundFile.path).Nodup
  congr : ∀ extensions extensions', (∀ ext, ext ∈ extensions ↔ ext ∈ extensions') →
    found extensions = found extensions'
  mono : ∀ extensions extensions', extensions ⊆ extensions' →
    (found extensions).Sublist (found extensions')

theorem hasExtension_iff {extensions : List String} :
    hasExtension extensions name = true ↔ ∃ ext ∈ extensions, ext.toList <:+ name.toList := by
  simp [hasExtension]

/-- The files of a walk with a name that ends in the right way. -/
theorem isSearch_filter {files : List FoundFile}
    (hmem : ∀ f, f ∈ files ↔ tree.IsFound f ∧ tree.Visits root f.path)
    (hnodup : (files.map FoundFile.path).Nodup) :
    tree.IsSearch root fun extensions =>
      files.filter fun f => hasExtension extensions f.name where
  mem_iff := by
    intro extensions f
    rw [List.mem_filter, hmem, hasExtension_iff]
    tauto
  nodup := fun extensions => hnodup.sublist (List.filter_sublist.map _)
  congr := by
    intro extensions extensions' h
    refine List.filter_congr fun f _ => ?_
    rw [Bool.eq_iff_iff, hasExtension_iff, hasExtension_iff]
    simp only [h]
  mono := by
    intro extensions extensions' h
    refine List.monotone_filter_right files fun f hf => ?_
    obtain ⟨ext, hext, hsuffix⟩ := hasExtension_iff.1 hf
    exact hasExtension_iff.2 ⟨ext, h hext, hsuffix⟩

/-- A search that succeeds finds what it does for any list of extensions. -/
theorem exists_isSearch_of_find (hwf : tree.top.WellFormed) {extensions : List String}
    {files : List FoundFile} (h : tree.find root extensions = .ok files) :
    ∃ found, tree.IsSearch root found ∧ found extensions = files := by
  have houtcome := isOutcome_walk hwf root
  rw [find] at h
  generalize tree.walk root = result at h houtcome
  cases houtcome with
  | found _ hmem hnodup =>
    cases h
    exact ⟨_, isSearch_filter hmem hnodup, rfl⟩
  | fault _ => cases h

theorem mem_iff_of_find (hwf : tree.top.WellFormed) {extensions : List String}
    {files : List FoundFile} (h : tree.find root extensions = .ok files) :
    f ∈ files ↔ tree.Visits root f.path ∧ tree.IsFound f ∧
      ∃ ext ∈ extensions, ext.toList <:+ f.name.toList := by
  obtain ⟨found, hsearch, rfl⟩ := exists_isSearch_of_find hwf h
  exact hsearch.mem_iff extensions f

theorem nodup_of_find (hwf : tree.top.WellFormed) {extensions : List String}
    {files : List FoundFile} (h : tree.find root extensions = .ok files) :
    (files.map FoundFile.path).Nodup := by
  obtain ⟨found, hsearch, rfl⟩ := exists_isSearch_of_find hwf h
  exact hsearch.nodup extensions

/-- A search of a tree comes to an end, whatever its links. If anything obstructs the walk, it fails
with a fault about that, whatever the extensions. Otherwise it finds the files that the walk visits
and whose names have one of the extensions, each of them once. -/
theorem find_searches (hwf : tree.top.WellFormed) (root : String) :
    {chain | tree.Reaches [root] chain}.Finite ∧
      ((∃ path, tree.Obstructs root path) → ∃ fault : WalkFault, tree.Obstructs root fault.path ∧
        ∀ extensions, tree.find root extensions = .error fault) ∧
      ((∀ path, ¬ tree.Obstructs root path) → ∃ found, tree.IsSearch root found ∧
        ∀ extensions, tree.find root extensions = .ok (found extensions)) := by
  refine ⟨finite_reaches hwf root, ?_, ?_⟩
  · rintro ⟨path, hobstructs⟩
    have houtcome := isOutcome_walk hwf root
    generalize hwalk : tree.walk root = result at houtcome
    cases houtcome with
    | found hfree _ _ => exact absurd hobstructs (hfree path)
    | @fault fault hfault => exact ⟨fault, hfault, fun extensions => by rw [find, hwalk]; rfl⟩
  · intro hfree
    have houtcome := isOutcome_walk hwf root
    generalize hwalk : tree.walk root = result at houtcome
    cases houtcome with
    | found _ hmem hnodup =>
      exact ⟨_, isSearch_filter hmem hnodup, fun extensions => by rw [find, hwalk]; rfl⟩
    | fault hfault => exact absurd hfault (hfree _)

/-- A directory beside a link to it: its file is found under both paths. -/
theorem find_searches_linkBeside :
    ∃ found, IsSearch ⟨.directory [("src", .directory [("A.java", .file .empty)]),
        ("alias", .link "src")], []⟩ "." found ∧
      (found [".java"]).map FoundFile.path = ["./src/A.java", "./alias/A.java"] := by
  let tree : FileTree := ⟨.directory [("src", .directory [("A.java", .file .empty)]),
    ("alias", .link "src")], []⟩
  have hwf : tree.top.WellFormed := by
    refine .directory (by decide) (by decide) ?_
    rintro e (_ | ⟨_, _ | ⟨_, ⟨⟩⟩⟩)
    · refine .directory (by decide) (by decide) ?_
      rintro e (_ | ⟨_, ⟨⟩⟩)
      exact .regular
    · exact .link
  have hsource : ∀ links here above, tree.visitAll links here above [("A.java", .file .empty)] =
      .ok [⟨Path.join here.path "A.java", "A.java", .ok .empty⟩] := by
    intro links here above
    rw [visitAll, visitAll, visit]
    rfl
  have halias : tree.visit 40 ⟨".", []⟩ [] "alias" (.link "src") =
      .ok [⟨Path.join (Path.join "." "alias") "A.java", "A.java", .ok .empty⟩] := by
    rw [visit_link, show tree.followLink 40 [] "src" = .ok (["src"], 39) by cbv]
    exact hsource 39 _ _
  have hwalk : tree.walk "." =
      .ok [⟨"./src/A.java", "A.java", .ok .empty⟩, ⟨"./alias/A.java", "A.java", .ok .empty⟩] := by
    rw [walk, show tree.resolve "." = .ok ([], 40) by cbv]
    change tree.visitAll 40 ⟨".", []⟩ [] [("src", _), ("alias", _)] = _
    rw [visitAll, visitAll, visitAll, visit, hsource, halias]
    dsimp only
    rw [show Path.join (Path.join "." "src") "A.java" = "./src/A.java" by decide,
      show Path.join (Path.join "." "alias") "A.java" = "./alias/A.java" by decide]
    rfl
  have hfound : (tree.find "." [".java"]).map (List.map FoundFile.path) =
      .ok ["./src/A.java", "./alias/A.java"] := by
    rw [find, hwalk]
    rfl
  obtain ⟨-, hobstructed, hfree⟩ := find_searches hwf "."
  have hnone : ∀ path, ¬ tree.Obstructs "." path := by
    intro path hpath
    obtain ⟨fault, -, hfault⟩ := hobstructed ⟨path, hpath⟩
    rw [hfault] at hfound
    cases hfound
  obtain ⟨found, hsearch, hfind⟩ := hfree hnone
  rw [hfind] at hfound
  exact ⟨found, hsearch, Except.ok.inj hfound⟩

end FileTree

end TodoAudit
