import TodoAudit.Proofs.Report.Listing

/-!
# The dates of a listing

The list mode lists one todo for each date on which a todo is due, or for each such date before
today if it is to list only what is overdue. `IsAgenda` says which dates these are and in which
order they come, without regard to the todos that stand for them; a list of todos has exactly one
agenda, and the listing follows it (`exists_isAgenda`).
-/

namespace TodoAudit

namespace ListMode

variable {m : ListMode} {todos : List Todo} {t : Todo} {d : Date}

/-- The mode without the limit to what is overdue. -/
def whole (m : ListMode) : ListMode :=
  { m with overdueOnly := false }

/-- The mode lists the date if a todo is due on it. -/
def Covers (m : ListMode) (d : Date) : Prop :=
  m.overdueOnly = true → d < m.today

/-- A limited listing is a part of the whole one. -/
theorem listed_eq_filter (h : m.overdueOnly = true) (todos : List Todo) :
    m.listed todos = (m.whole.listed todos).filter m.isOverdue := by
  rw [listed, listed, h]
  rfl

theorem listed_whole (h : m.overdueOnly = false) (todos : List Todo) :
    m.listed todos = m.whole.listed todos := by
  rw [listed, listed, h]
  rfl

theorem isListing_whole (m : ListMode) (todos : List Todo) :
    IsListing m.direction todos (m.whole.listed todos) :=
  isListing_listed (m := m.whole) rfl todos

theorem isOverdue_iff : m.isOverdue t = true ↔ ∃ d, t.dueDate = some d ∧ d < m.today := by
  rw [isOverdue]
  cases t.dueDate <;> simp

/-- What is listed is the last todo of each date that the mode covers. -/
theorem mem_listed_iff_covers :
    t ∈ m.listed todos ↔ ∃ d, t.dueDate = some d ∧ m.Covers d ∧ lastDue? todos d = some t := by
  cases h : m.overdueOnly with
  | false =>
    rw [listed_whole h, (isListing_whole m todos).mem_iff]
    simp [Covers, h]
  | true =>
    rw [listed_eq_filter h, List.mem_filter, (isListing_whole m todos).mem_iff, isOverdue_iff]
    simp only [Covers, h, true_imp_iff]
    constructor
    · rintro ⟨⟨d, hd, hlast⟩, e, he, hlt⟩
      cases hd.symm.trans he
      exact ⟨d, hd, hlt, hlast⟩
    · rintro ⟨d, hd, hlt, hlast⟩
      exact ⟨⟨d, hd, hlast⟩, d, hd, hlt⟩

theorem listed_sublist (m : ListMode) (todos : List Todo) :
    (m.listed todos).Sublist (m.whole.listed todos) := by
  cases h : m.overdueOnly with
  | false => rw [listed_whole h]
  | true => exact listed_eq_filter h todos ▸ List.filter_sublist

theorem sorted_listed (m : ListMode) (todos : List Todo) :
    (m.listed todos).Pairwise fun t u => m.direction.Precedes (dueText t) (dueText u) :=
  (isListing_whole m todos).sorted.sublist (listed_sublist m todos)

end ListMode

/-! ## Agendas -/

variable {todos : List Todo} {t : Todo} {d : Date}

theorem mem_of_lastDue? (h : lastDue? todos d = some t) : t ∈ todos ∧ t.dueDate = some d :=
  ⟨List.mem_reverse.1 (List.mem_of_find?_eq_some h), by simpa using List.find?_some h⟩

/-- There is a last todo of each date on which a todo is due. -/
theorem exists_lastDue? (h : ∃ t ∈ todos, t.dueDate = some d) :
    ∃ t, t.dueDate = some d ∧ lastDue? todos d = some t := by
  obtain ⟨u, hu, hd⟩ := h
  have hsome : (lastDue? todos d).isSome := by
    rw [lastDue?, List.find?_isSome]
    exact ⟨u, List.mem_reverse.2 hu, decide_eq_true hd⟩
  obtain ⟨t, ht⟩ := Option.isSome_iff_exists.1 hsome
  exact ⟨t, (mem_of_lastDue? ht).2, ht⟩

/-- The dates on which the mode lists a todo, in the order of their written forms. -/
structure IsAgenda (m : ListMode) (todos : List Todo) (dates : List Date) : Prop where
  mem_iff : ∀ d, d ∈ dates ↔ m.Covers d ∧ ∃ t ∈ todos, t.dueDate = some d
  sorted : dates.Pairwise fun d e => m.direction.Precedes d.chars e.chars

namespace IsAgenda

variable {m : ListMode} {todos' : List Todo} {dates dates' : List Date}

theorem nodup (h : IsAgenda m todos dates) : dates.Nodup := by
  refine h.sorted.imp ?_
  rintro d _ hlt rfl
  exact hlt.asymm hlt

/-- The same todos in another order have the same agenda. -/
theorem perm (h : IsAgenda m todos dates) (hperm : todos.Perm todos') :
    IsAgenda m todos' dates := by
  refine ⟨?_, h.sorted⟩
  intro d
  rw [h.mem_iff]
  simp only [hperm.mem_iff]

theorem unique (h : IsAgenda m todos dates) (h' : IsAgenda m todos dates') : dates = dates' := by
  have hperm : dates.Perm dates' := by
    refine (List.perm_ext_iff_of_nodup h.nodup h'.nodup).2 ?_
    intro d
    rw [h.mem_iff, h'.mem_iff]
  exact hperm.eq_of_pairwise (fun d e _ _ hde hed => absurd hed hde.asymm) h.sorted h'.sorted

end IsAgenda

/-- What is listed follows the agenda. -/
theorem exists_isAgenda (m : ListMode) (todos : List Todo) :
    ∃ dates, IsAgenda m todos dates ∧ (m.listed todos).map Todo.dueDate = dates.map some := by
  refine ⟨(m.listed todos).filterMap Todo.dueDate, ⟨?_, ?_⟩, ?_⟩
  · intro d
    rw [List.mem_filterMap]
    constructor
    · rintro ⟨t, ht, hd⟩
      obtain ⟨e, he, hcovers, hlast⟩ := ListMode.mem_listed_iff_covers.1 ht
      cases hd.symm.trans he
      exact ⟨hcovers, t, (mem_of_lastDue? hlast).1, hd⟩
    · rintro ⟨hcovers, hdue⟩
      obtain ⟨t, hd, hlast⟩ := exists_lastDue? hdue
      exact ⟨t, ListMode.mem_listed_iff_covers.2 ⟨d, hd, hcovers, hlast⟩, hd⟩
  · rw [List.pairwise_filterMap]
    refine (ListMode.sorted_listed m todos).imp ?_
    intro t u hlt d hd e he
    rwa [ListMode.dueText_eq hd, ListMode.dueText_eq he] at hlt
  · rw [List.map_filterMap, ← List.filterMap_eq_map]
    refine List.filterMap_congr ?_
    intro t ht
    obtain ⟨d, hd, -⟩ := ListMode.mem_listed_iff_covers.1 ht
    rw [Function.comp_apply, hd]
    rfl

end TodoAudit
