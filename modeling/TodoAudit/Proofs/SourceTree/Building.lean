import TodoAudit.Proofs.SourceTree.Resolution
import TodoAudit.SourceTree.Build

/-!
# Trees that are built are well formed

What is put into a well-formed tree at the place of a path leaves it well formed
(`FileTree.insert_wellFormed`): the names on the way to the place come from the path or are already
in the tree, and an entry that is put into a directory replaces the one of its name.
-/

namespace TodoAudit

namespace Path

theorem noSlash_of_mem_parts {s p : List Char} (h : p ∈ parts s) : '/' ∉ p := by
  induction s generalizing p with
  | nil =>
    rw [parts, List.mem_singleton] at h
    simp [h]
  | cons c s ih =>
    rw [parts] at h
    split at h
    · rcases List.mem_cons.1 h with rfl | h
      · simp
      · exact ih h
    · rename_i hc
      obtain ⟨q, qs, hq⟩ := List.exists_cons_of_ne_nil (parts_ne_nil s)
      rw [hq] at h ih
      rcases List.mem_cons.1 h with rfl | h
      · rw [List.mem_cons, not_or]
        exact ⟨Ne.symm hc, ih List.mem_cons_self⟩
      · exact ih (List.mem_cons_of_mem _ h)

/-- A name along a path is that of an entry, or stands for the directory or for the one above. -/
theorem isName_of_mem_names {path name : String} (h : name ∈ names path) (hdot : name ≠ ".")
    (hdotDot : name ≠ "..") : IsName name := by
  rw [names_eq, List.mem_append] at h
  rcases h with h | h
  · obtain ⟨p, hp, rfl⟩ := List.mem_map.1 h
    rw [List.mem_filter] at hp
    refine ⟨?_, ?_, hdot, hdotDot⟩
    · simpa using hp.2
    · rw [String.toList_ofList]
      exact noSlash_of_mem_parts hp.1
  · split at h
    · exact absurd (List.mem_singleton.1 h) hdot
    · cases h

end Path

namespace Node

variable {node child old : Node} {entries : List (String × Node)} {name : String}
  {names : List String} {e : String × Node}

theorem mem_setEntry (h : e ∈ setEntry name node entries) : e = (name, node) ∨ e ∈ entries := by
  induction entries with
  | nil => exact .inl (List.mem_singleton.1 h)
  | cons other entries ih =>
    rw [setEntry] at h
    split at h
    · exact (List.mem_cons.1 h).imp_right (List.mem_cons_of_mem _)
    · rcases List.mem_cons.1 h with rfl | h
      · exact .inr List.mem_cons_self
      · exact (ih h).imp_right (List.mem_cons_of_mem _)

/-- An entry that is set keeps its place or comes last. -/
theorem map_fst_setEntry : (setEntry name node entries).map Prod.fst =
    if name ∈ entries.map Prod.fst then entries.map Prod.fst
    else entries.map Prod.fst ++ [name] := by
  induction entries with
  | nil => rfl
  | cons other entries ih =>
    obtain ⟨key, value⟩ := other
    rw [setEntry]
    by_cases h : key = name
    · simp [h]
    · rw [if_neg h, List.map_cons, ih]
      simp only [List.map_cons, List.mem_cons, Ne.symm h, false_or]
      split <;> rfl

theorem nodup_setEntry (h : (entries.map Prod.fst).Nodup) :
    ((setEntry name node entries).map Prod.fst).Nodup := by
  rw [map_fst_setEntry]
  split
  · exact h
  · rename_i hname
    exact List.nodup_append.2 ⟨h, by simp, fun a ha b hb heq =>
      hname (List.mem_singleton.1 hb ▸ heq ▸ ha)⟩

/-- A node with only well-formed entries, of different names. -/
theorem WellFormed.directory_entries (h : old.WellFormed) :
    (Node.directory old.entries).WellFormed := by
  cases h with
  | directory hnodup hnames hentries => exact .directory hnodup hnames hentries
  | _ => exact .directory (by simp [entries]) (by simp [entries]) (by simp [entries])

theorem WellFormed.setEntry (h : (Node.directory entries).WellFormed) (hname : Path.IsName name)
    (hnode : node.WellFormed) : (Node.directory (setEntry name node entries)).WellFormed := by
  cases h with
  | directory hnodup hnames hentries =>
    refine .directory (nodup_setEntry hnodup) ?_ ?_
    · intro e he
      rcases mem_setEntry he with rfl | he
      · exact hname
      · exact hnames e he
    · intro e he
      rcases mem_setEntry he with rfl | he
      · exact hnode
      · exact hentries e he

theorem WellFormed.insert (h : old.WellFormed) (hnames : ∀ name ∈ names, Path.IsName name)
    (hnode : node.WellFormed) : (insert node names old).WellFormed := by
  induction names generalizing old with
  | nil =>
    unfold Node.insert
    split
    · exact h
    · exact hnode
  | cons name names ih =>
    rw [Node.insert]
    rw [List.forall_mem_cons] at hnames
    refine h.directory_entries.setEntry hnames.1 (ih ?_ hnames.2)
    cases hchild : child? name old.entries with
    | none => exact .directory (by simp) (by simp) (by simp)
    | some child =>
      cases h.directory_entries with
      | directory _ _ hentries => exact hentries _ (mem_of_child? hchild)

end Node

namespace FileTree

variable {tree : FileTree} {links left : Nat} {location found names : List String}
  {path : String} {node : Node}

theorem isName_of_mem_origin (h : ∀ name ∈ location, Path.IsName name) :
    ∀ name ∈ origin location path, Path.IsName name := by
  rw [origin]
  split
  · simp
  · exact h

theorem isName_of_follow (hwf : tree.top.WellFormed) (h : ∀ name ∈ location, Path.IsName name)
    (hfollow : tree.follow links location names = .ok (found, left)) :
    ∀ name ∈ found, Path.IsName name := by
  fun_induction follow tree links location names with
  | case1 => cases hfollow; exact h
  | case2 _ _ _ _ _ ih => exact ih h hfollow
  | case3 _ _ _ _ _ _ ih =>
    exact ih (fun name hmem => h name (List.mem_of_mem_dropLast hmem)) hfollow
  | case4 => cases hfollow
  | case5 => cases hfollow
  | case6 =>
    rename_i ih
    exact ih (isName_of_mem_origin h) hfollow
  | case7 =>
    rename_i hdirectory _ _ _ _ hchild ih
    refine ih ?_ hfollow
    cases hwf.at? hdirectory with
    | directory _ hnames _ =>
      intro name hname
      rcases List.mem_append.1 hname with hname | hname
      · exact h name hname
      · rw [List.mem_singleton.1 hname]
        exact hnames _ (Node.mem_of_child? hchild)
  | case8 => cases hfollow
  | case9 => cases hfollow

theorem isName_of_mem_step {name : String} (hwf : tree.top.WellFormed)
    (h : ∀ name ∈ location, Path.IsName name) (hname : name ∈ Path.names path) :
    ∀ name' ∈ tree.step location name, Path.IsName name' := by
  rw [step]
  split
  · exact h
  · rename_i hdot
    split
    · exact fun name' hmem => h name' (List.mem_of_mem_dropLast hmem)
    · rename_i hdotDot
      split
      · rename_i hfollow
        exact isName_of_follow hwf h hfollow
      · intro name' hmem
        rcases List.mem_append.1 hmem with hmem | hmem
        · exact h name' hmem
        · rw [List.mem_singleton.1 hmem]
          exact Path.isName_of_mem_names hname hdot hdotDot

theorem isName_of_mem_place (hwf : tree.top.WellFormed)
    (h : ∀ name ∈ tree.workingDirectory, Path.IsName name) :
    ∀ name ∈ tree.place path, Path.IsName name := by
  rw [place]
  refine List.foldlRecOn (motive := fun location => ∀ name ∈ location, Path.IsName name) _ _
    (isName_of_mem_origin h) ?_
  intro location hlocation name hname
  exact isName_of_mem_step hwf hlocation hname

/-- What is put into a well-formed tree leaves it well formed. -/
theorem insert_wellFormed (hwf : tree.top.WellFormed)
    (h : ∀ name ∈ tree.workingDirectory, Path.IsName name) (hnode : node.WellFormed) :
    (tree.insert path node).top.WellFormed :=
  hwf.insert (isName_of_mem_place hwf h) hnode

end FileTree

end TodoAudit
