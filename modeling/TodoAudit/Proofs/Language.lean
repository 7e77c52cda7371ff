import Mathlib
import TodoAudit.Language
import TodoAudit.Proofs.Success

/-!
# Languages by name

A name that is known is that of one language only, in whatever case it is written
(`ofName_eq_ok_iff`). Extensions are added one by one, each if it is not there yet. What has been
added in the end are the new ones, each once, in the order in which they first occur (`Firsts`), and
this determines them (`Firsts.unique`). Extensions can be collected first and then be added to a
list with the same result (`addNew_addNew_eq_iff`).
-/

namespace TodoAudit.Language

variable {known found news news' : List String} {names : List String} {name ext : String}
  {l : Language} {langs : List Language}

/-! ## Names -/

/-- The language has the name, up to the case of ASCII letters. -/
def IsNamed (name : String) (l : Language) : Prop :=
  l ∈ all ∧ caseFolded l.name = caseFolded name

/-- A language has the name. -/
def IsKnown (name : String) : Prop :=
  ∃ l, IsNamed name l

/-- No two languages have the same name. -/
theorem nodup_caseFolded_name : (all.map fun l => caseFolded l.name).Nodup := by
  decide +kernel

theorem IsNamed.unique {l' : Language} (h : IsNamed name l) (h' : IsNamed name l') : l = l' :=
  List.inj_on_of_nodup_map nodup_caseFolded_name h.1 h'.1 (h.2.trans h'.2.symm)

theorem ofName_eq_error_iff {e : UnknownLanguage} :
    ofName name = .error e ↔ e = ⟨name⟩ ∧ ¬ IsKnown name := by
  rw [ofName]
  cases hfind : all.find? fun l => caseFolded l.name = caseFolded name with
  | some l =>
    have hname := List.find?_some hfind
    have hknown : IsKnown name := ⟨l, List.mem_of_find?_eq_some hfind, by simpa using hname⟩
    simp [hknown]
  | none =>
    have hnone := List.find?_eq_none.1 hfind
    have hunknown : ¬ IsKnown name := by
      rintro ⟨l, hl, hname⟩
      exact hnone l hl (by simpa using hname)
    simp [hunknown, eq_comm]

theorem ofName_eq_ok_iff : ofName name = .ok l ↔ IsNamed name l := by
  cases hname : ofName name with
  | error e =>
    have hunknown := (ofName_eq_error_iff.1 hname).2
    refine iff_of_false (fun h => by cases h) ?_
    exact fun hl => hunknown ⟨l, hl⟩
  | ok l' =>
    have hl' : IsNamed name l' := by
      rw [ofName] at hname
      split at hname
      · rename_i hfind
        cases hname
        exact ⟨List.mem_of_find?_eq_some hfind, by simpa using List.find?_some hfind⟩
      · cases hname
    rw [Except.ok.injEq]
    constructor
    · rintro rfl
      exact hl'
    · intro hl
      exact hl'.unique hl

/-! ## New extensions -/

/-- The new ones of what has been found, each once, in the order in which they first occur. -/
structure Firsts (known found news : List String) : Prop where
  mem_iff : ∀ ext, ext ∈ news ↔ ext ∈ found ∧ ext ∉ known
  ordered : news.Pairwise fun a b => found.idxOf a < found.idxOf b

namespace Firsts

theorem nodup (h : Firsts known found news) : news.Nodup := by
  rw [List.nodup_iff_pairwise_ne]
  refine h.ordered.imp ?_
  rintro a b hlt rfl
  exact Nat.lt_irrefl _ hlt

/-- What is new is determined, its order included. -/
theorem unique (h : Firsts known found news) (h' : Firsts known found news') : news = news' := by
  have hperm : news.Perm news' := by
    rw [List.perm_ext_iff_of_nodup h.nodup h'.nodup]
    intro ext
    rw [h.mem_iff, h'.mem_iff]
  refine hperm.eq_of_pairwise ?_ h.ordered h'.ordered
  intro a b _ _ hab hba
  omega

/-- What comes behind an extension that is there or has been found before is looked at alone. -/
theorem ordered_cons (h : news.Pairwise fun a b => found.idxOf a < found.idxOf b)
    (hext : ext ∉ news) :
    news.Pairwise fun a b => (ext :: found).idxOf a < (ext :: found).idxOf b := by
  refine h.imp_of_mem ?_
  intro a b ha hb hlt
  have hea : ext ≠ a := fun heq => hext (heq ▸ ha)
  have heb : ext ≠ b := fun heq => hext (heq ▸ hb)
  rw [List.idxOf_cons_ne _ hea, List.idxOf_cons_ne _ heb]
  omega

/-- An extension that is there is passed over. -/
theorem cons_of_mem (h : Firsts known found news) (hext : ext ∈ known) :
    Firsts known (ext :: found) news where
  mem_iff := by
    intro e
    rw [h.mem_iff, List.mem_cons]
    constructor
    · rintro ⟨hfound, hnew⟩
      exact ⟨.inr hfound, hnew⟩
    · rintro ⟨rfl | hfound, hnew⟩
      · exact absurd hext hnew
      · exact ⟨hfound, hnew⟩
  ordered := ordered_cons h.ordered fun hmem => ((h.mem_iff ext).1 hmem).2 hext

/-- An extension that is not there is the first new one. -/
theorem cons_of_notMem (h : Firsts (known ++ [ext]) found news) (hext : ext ∉ known) :
    Firsts known (ext :: found) (ext :: news) := by
  have hnot : ext ∉ news := fun hmem => ((h.mem_iff ext).1 hmem).2 (by simp)
  refine ⟨?_, List.pairwise_cons.2 ⟨?_, ordered_cons h.ordered hnot⟩⟩
  · intro e
    rw [List.mem_cons, h.mem_iff, List.mem_cons, List.mem_append, List.mem_singleton, not_or]
    by_cases he : e = ext
    · simp [he, hext]
    · simp [he]
  · intro e he
    have hne : ext ≠ e := fun heq => hnot (heq ▸ he)
    rw [List.idxOf_cons_self, List.idxOf_cons_ne _ hne]
    exact Nat.succ_pos _

/-- What is new among the new ones is new, and in the same order. -/
theorem trans (h : Firsts [] found news) (h' : Firsts known news news') :
    Firsts known found news' where
  mem_iff := by
    intro ext
    rw [h'.mem_iff, h.mem_iff]
    simp
  ordered := by
    refine h'.ordered.imp_of_mem ?_
    intro a b ha hb hlt
    have ha' := ((h'.mem_iff a).1 ha).1
    have hb' := ((h'.mem_iff b).1 hb).1
    -- in the collected list, an earlier place is an earlier first occurrence
    have hindex := List.pairwise_iff_getElem.1 h.ordered (news.idxOf a) (news.idxOf b)
      (List.idxOf_lt_length_iff.2 ha') (List.idxOf_lt_length_iff.2 hb') hlt
    rwa [List.getElem_idxOf, List.getElem_idxOf] at hindex

end Firsts

/-- Adding one by one puts the new ones behind what is there. -/
theorem addNew_spec (known found : List String) :
    ∃ news, addNew known found = known ++ news ∧ Firsts known found news := by
  induction found generalizing known with
  | nil => exact ⟨[], (List.append_nil _).symm, by simp, .nil⟩
  | cons ext found ih =>
    rw [addNew]
    by_cases hext : ext ∈ known
    · obtain ⟨news, hadd, hnews⟩ := ih known
      rw [if_pos hext]
      exact ⟨news, hadd, hnews.cons_of_mem hext⟩
    · obtain ⟨news, hadd, hnews⟩ := ih (known ++ [ext])
      rw [if_neg hext, hadd]
      exact ⟨ext :: news, by simp, hnews.cons_of_notMem hext⟩

/-- Adding to a list what has been collected first puts the new ones behind that list. -/
theorem addNew_addNew_eq_iff {merged : List String} : addNew known (addNew [] found) = merged ↔
    ∃ news, merged = known ++ news ∧ Firsts known found news := by
  obtain ⟨collected, hcollect, hcollected⟩ := addNew_spec [] found
  obtain ⟨news, hadd, hnews⟩ := addNew_spec known collected
  rw [hcollect, List.nil_append, hadd]
  constructor
  · rintro rfl
    exact ⟨news, rfl, hcollected.trans hnews⟩
  · rintro ⟨news', rfl, hnews'⟩
    rw [(hcollected.trans hnews).unique hnews']

/-! ## The extensions of named languages -/

theorem extensionsOf_eq_ok_iff {exts : List String} : extensionsOf names = .ok exts ↔
    ∃ langs, List.Forall₂ IsNamed names langs ∧ addNew [] (langs.flatMap extensions) = exts := by
  simp only [extensionsOf, Success.bind_eq_ok_iff, Success.mapM_eq_ok_iff, ofName_eq_ok_iff, pure,
    Except.pure, Except.ok.injEq]

/-- It is the first of the names that is not known. -/
def FirstUnknown (names : List String) (unknown : UnknownLanguage) : Prop :=
  ∃ before after, names = before ++ unknown.name :: after ∧ (∀ name ∈ before, IsKnown name) ∧
    ¬ IsKnown unknown.name

/-- The extensions of named languages cannot be had exactly if a name is unknown, and it is the
first such name that is reported. -/
theorem extensionsOf_eq_error_iff {e : UnknownLanguage} :
    extensionsOf names = .error e ↔ FirstUnknown names e := by
  simp only [extensionsOf, Success.bind_eq_error_iff, Success.mapM_eq_error_iff, ofName_eq_ok_iff,
    ofName_eq_error_iff, pure, Except.pure, reduceCtorEq, and_false, exists_false, or_false]
  constructor
  · rintro ⟨before, name, after, hnames, hbefore, rfl, hname⟩
    exact ⟨before, after, hnames, hbefore, hname⟩
  · rintro ⟨before, after, hnames, hbefore, hname⟩
    exact ⟨before, e.name, after, hnames, hbefore, rfl, hname⟩

theorem exists_forall₂_isNamed_iff :
    (∃ langs, List.Forall₂ IsNamed names langs) ↔ ∀ name ∈ names, IsKnown name := by
  constructor
  · rintro ⟨langs, hlangs⟩ name hname
    obtain ⟨l, -, hl⟩ := Success.exists_mem_of_forall₂ hlangs hname
    exact ⟨l, hl⟩
  · intro h
    induction names with
    | nil => exact ⟨[], .nil⟩
    | cons name names ih =>
      obtain ⟨⟨l, hl⟩, hrest⟩ := List.forall_mem_cons.1 h
      obtain ⟨langs, hlangs⟩ := ih hrest
      exact ⟨l :: langs, .cons hl hlangs⟩

end TodoAudit.Language
