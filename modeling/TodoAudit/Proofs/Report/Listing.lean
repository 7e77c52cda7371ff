import Mathlib
import TodoAudit.Proofs.Calendar.Writing
import TodoAudit.Report

/-!
# The order of a listing

The list mode keeps todos in the order of their written due dates, and puts a todo in place of an
earlier one that is written alike. As no two dates are written alike, of the todos that are due on
the same date exactly the last one is listed. `IsListing` states what is listed, and
`report_isListing` that it is what the list mode reports; while years have four digits, the listing
is in the order of the calendar.
-/

namespace TodoAudit

/-! ## Listings -/

/-- Earlier, if the earliest comes first, and else later. -/
def SortDirection.Precedes {α : Type} [LT α] : SortDirection → α → α → Prop
  | .ascending, a, b => a < b
  | .descending, a, b => b < a

theorem SortDirection.Precedes.asymm {α : Type} [Preorder α] {direction : SortDirection} {a b : α}
    (h : direction.Precedes a b) : ¬ direction.Precedes b a := by
  cases direction <;> exact lt_asymm h

/-- The last of the todos that is due on the date. -/
def lastDue? (todos : List Todo) (d : Date) : Option Todo :=
  todos.reverse.find? fun t => t.dueDate = some d

/-- The list has the last todo of each due date and nothing else, and the direction tells how it is
ordered by the written due dates. -/
structure IsListing (direction : SortDirection) (todos listing : List Todo) : Prop where
  dated : ∀ t ∈ listing, ∃ d, t.dueDate = some d
  last : ∀ d, listing.filter (fun t => t.dueDate = some d) = (lastDue? todos d).toList
  sorted : listing.Pairwise fun t u =>
    direction.Precedes (ListMode.dueText t) (ListMode.dueText u)

namespace ListMode

variable {todos listing sorted : List Todo} {t u : Todo} {d e : Date} {m : ListMode}
  {direction : SortDirection}

/-! ## Written due dates -/

theorem dueText_eq (h : t.dueDate = some d) : dueText t = d.chars := by
  rw [dueText, h]
  rfl

/-- Todos are due on the same date if their due dates are written alike. -/
theorem dueText_eq_iff (ht : t.dueDate = some d) (hu : u.dueDate = some e) :
    dueText t = dueText u ↔ d = e := by
  rw [dueText_eq ht, dueText_eq hu]
  exact Date.chars_injective.eq_iff

theorem nodup_of_pairwise
    (h : todos.Pairwise fun t u => direction.Precedes (dueText t) (dueText u)) : todos.Nodup := by
  refine h.imp ?_
  intro t u hlt heq
  rw [heq] at hlt
  exact hlt.asymm hlt

/-! ## Inserting -/

/-- The written due dates become ever later. -/
def Ascending (todos : List Todo) : Prop :=
  todos.Pairwise fun t u => dueText t < dueText u

/-- A todo takes the place of those that are written alike. -/
theorem mem_insert_iff (h : Ascending sorted) {x : Todo} :
    x ∈ insert t sorted ↔ x = t ∨ x ∈ sorted ∧ dueText x ≠ dueText t := by
  induction sorted with
  | nil => simp [insert]
  | cons u us ih =>
    obtain ⟨hu, hus⟩ := List.pairwise_cons.1 h
    rw [insert]
    split_ifs with hlt heq
    · have hne : x ∈ u :: us → dueText x ≠ dueText t := by
        intro hx
        rcases List.mem_cons.1 hx with rfl | hx
        · exact hlt.ne'
        · exact (hlt.trans (hu x hx)).ne'
      rw [List.mem_cons]
      exact or_congr_right (iff_self_and.2 hne)
    · have hne : x ∈ us → dueText x ≠ dueText t := by
        intro hx
        rw [heq]
        exact (hu x hx).ne'
      rw [List.mem_cons, List.mem_cons]
      refine or_congr_right ⟨fun hx => ⟨Or.inr hx, hne hx⟩, ?_⟩
      rintro ⟨rfl | hx, hx'⟩
      · exact absurd heq.symm hx'
      · exact hx
    · rw [List.mem_cons, ih hus, List.mem_cons]
      constructor
      · rintro (rfl | rfl | ⟨hx, hne⟩)
        · exact Or.inr ⟨Or.inl rfl, fun h => heq h.symm⟩
        · exact Or.inl rfl
        · exact Or.inr ⟨Or.inr hx, hne⟩
      · rintro (rfl | ⟨rfl | hx, hne⟩)
        · exact Or.inr (Or.inl rfl)
        · exact Or.inl rfl
        · exact Or.inr (Or.inr ⟨hx, hne⟩)

/-- Inserting keeps the order. -/
theorem Ascending.insert (h : Ascending sorted) : Ascending (insert t sorted) := by
  induction sorted with
  | nil => exact List.pairwise_singleton _ _
  | cons u us ih =>
    obtain ⟨hu, hus⟩ := List.pairwise_cons.1 h
    rw [ListMode.insert]
    split_ifs with hlt heq
    · refine List.pairwise_cons.2 ⟨?_, h⟩
      intro x hx
      rcases List.mem_cons.1 hx with rfl | hx
      · exact hlt
      · exact hlt.trans (hu x hx)
    · refine List.pairwise_cons.2 ⟨?_, hus⟩
      intro x hx
      rw [heq]
      exact hu x hx
    · refine List.pairwise_cons.2 ⟨?_, ih hus⟩
      intro x hx
      rcases (mem_insert_iff hus).1 hx with rfl | ⟨hx, -⟩
      · exact lt_of_le_of_ne (not_lt.1 hlt) fun h => heq h.symm
      · exact hu x hx

/-! ## One todo for each due date -/

theorem byDueDate_append_singleton : byDueDate (todos ++ [t]) =
    if t.dueDate.isSome then insert t (byDueDate todos) else byDueDate todos := by
  rw [byDueDate, List.filter_append, List.foldl_append, ← byDueDate]
  split_ifs with h
  · rw [List.filter_singleton]
    simp [h]
  · simp [h]

theorem lastDue?_append_singleton :
    lastDue? (todos ++ [t]) d = if t.dueDate = some d then some t else lastDue? todos d := by
  rw [lastDue?, List.reverse_append, List.reverse_singleton, List.singleton_append, List.find?_cons]
  split_ifs with h
  · simp [h]
  · simp [h, lastDue?]

theorem ascending_byDueDate (todos : List Todo) : Ascending (byDueDate todos) := by
  induction todos using List.reverseRecOn with
  | nil => exact .nil
  | append_singleton todos t ih =>
    rw [byDueDate_append_singleton]
    split_ifs
    · exact ih.insert
    · exact ih

/-- What is kept is the last todo of its due date. -/
theorem mem_byDueDate_iff :
    t ∈ byDueDate todos ↔ ∃ d, t.dueDate = some d ∧ lastDue? todos d = some t := by
  induction todos using List.reverseRecOn with
  | nil => simp [byDueDate, lastDue?]
  | append_singleton todos u ih =>
    rw [byDueDate_append_singleton]
    simp only [lastDue?_append_singleton]
    cases hu : u.dueDate with
    | none => simpa using ih
    | some e =>
      rw [Option.isSome_some, if_pos rfl, mem_insert_iff (ascending_byDueDate todos), ih]
      constructor
      · rintro (rfl | ⟨⟨d, hd, hlast⟩, hne⟩)
        · exact ⟨e, hu, if_pos rfl⟩
        · refine ⟨d, hd, ?_⟩
          rw [if_neg fun h => hne ((dueText_eq_iff hd hu).2 (Option.some.inj h).symm), hlast]
      · rintro ⟨d, hd, hlast⟩
        by_cases h : e = d
        · rw [if_pos (congrArg some h)] at hlast
          exact Or.inl (Option.some.inj hlast).symm
        · rw [if_neg fun h' => h (Option.some.inj h')] at hlast
          exact Or.inr ⟨⟨d, hd, hlast⟩, fun heq => h ((dueText_eq_iff hd hu).1 heq).symm⟩

end ListMode

/-! ## What is listed -/

/-- A test that only one element passes filters that element. -/
theorem filter_eq_toList {α : Type} {xs : List α} {p : α → Bool} {o : Option α} (hnodup : xs.Nodup)
    (h : ∀ x, x ∈ xs ∧ p x = true ↔ o = some x) : xs.filter p = o.toList := by
  have hperm : (xs.filter p).Perm o.toList := by
    refine (List.perm_ext_iff_of_nodup (hnodup.filter p) (by cases o <;> simp)).2 ?_
    intro x
    rw [List.mem_filter, h, Option.mem_toList]
  cases o with
  | none => exact hperm.eq_nil
  | some x => exact List.perm_singleton.1 hperm

namespace IsListing

variable {todos listing other : List Todo} {t : Todo} {d : Date} {direction : SortDirection}

theorem nodup (h : IsListing direction todos listing) : listing.Nodup :=
  ListMode.nodup_of_pairwise h.sorted

theorem mem_iff (h : IsListing direction todos listing) :
    t ∈ listing ↔ ∃ d, t.dueDate = some d ∧ lastDue? todos d = some t := by
  have hmem : ∀ d, t ∈ listing ∧ t.dueDate = some d ↔ lastDue? todos d = some t := by
    intro d
    have hfilter := congrArg (t ∈ ·) (h.last d)
    simpa using hfilter
  constructor
  · intro ht
    obtain ⟨d, hd⟩ := h.dated t ht
    exact ⟨d, hd, (hmem d).1 ⟨ht, hd⟩⟩
  · rintro ⟨d, -, hlast⟩
    exact ((hmem d).2 hlast).1

/-- There is only one such list. -/
theorem unique (h : IsListing direction todos listing) (h' : IsListing direction todos other) :
    listing = other := by
  have hperm : listing.Perm other :=
    (List.perm_ext_iff_of_nodup h.nodup h'.nodup).2 fun t => h.mem_iff.trans h'.mem_iff.symm
  exact hperm.eq_of_pairwise (fun a b _ _ hab hba => absurd hba hab.asymm) h.sorted h'.sorted

theorem mem_of_mem (h : IsListing direction todos listing) (ht : t ∈ listing) : t ∈ todos := by
  obtain ⟨d, -, hlast⟩ := h.mem_iff.1 ht
  exact List.mem_reverse.1 (List.mem_of_find?_eq_some hlast)

/-- While years have four digits, the listing is in the order of the calendar. -/
theorem chronological (h : IsListing direction todos listing)
    (hyears : ∀ t ∈ todos, ∀ d, t.dueDate = some d → 0 ≤ d.year ∧ d.year ≤ 9999) :
    listing.Pairwise fun t u => ∀ d e, t.dueDate = some d → u.dueDate = some e →
      direction.Precedes d e := by
  refine List.Pairwise.imp_of_mem (fun {t u} ht hu hlt d e hd he => ?_) h.sorted
  have hdyear := hyears t (h.mem_of_mem ht) d hd
  have heyear := hyears u (h.mem_of_mem hu) e he
  rw [ListMode.dueText_eq hd, ListMode.dueText_eq he] at hlt
  cases direction with
  | ascending => exact (Date.chars_lt_chars_iff hdyear heyear).1 hlt
  | descending => exact (Date.chars_lt_chars_iff heyear hdyear).1 hlt

end IsListing

namespace ListMode

variable {todos : List Todo} {m : ListMode}

theorem mem_listed_iff (h : m.overdueOnly = false) {t : Todo} :
    t ∈ m.listed todos ↔ ∃ d, t.dueDate = some d ∧ lastDue? todos d = some t := by
  rw [← mem_byDueDate_iff, listed, h]
  cases m.direction <;> simp

theorem pairwise_listed (h : m.overdueOnly = false) (todos : List Todo) :
    (m.listed todos).Pairwise fun t u => m.direction.Precedes (dueText t) (dueText u) := by
  rw [listed, h]
  cases m.direction with
  | ascending => exact ascending_byDueDate todos
  | descending => exact List.pairwise_reverse.2 (ascending_byDueDate todos)

theorem isListing_listed (h : m.overdueOnly = false) (todos : List Todo) :
    IsListing m.direction todos (m.listed todos) := by
  have hsorted := pairwise_listed h todos
  refine ⟨?_, ?_, hsorted⟩
  · intro t ht
    obtain ⟨d, hd, -⟩ := (mem_listed_iff h).1 ht
    exact ⟨d, hd⟩
  · intro d
    refine filter_eq_toList (nodup_of_pairwise hsorted) ?_
    intro t
    rw [decide_eq_true_iff, mem_listed_iff h]
    constructor
    · rintro ⟨⟨e, he, hlast⟩, hd⟩
      cases he.symm.trans hd
      exact hlast
    · intro hlast
      have hd : t.dueDate = some d := by simpa using List.find?_some hlast
      exact ⟨⟨d, hd, hlast⟩, hd⟩

/-- The list mode reports the one list that has the last todo of each due date in the order of the
written dates. No two dates are written alike, and while years have four digits, this is the order
of the calendar. -/
theorem report_isListing (h : m.overdueOnly = false) (todos : List Todo) :
    ∃ listing, IsListing m.direction todos listing ∧
      (∀ other, IsListing m.direction todos other → other = listing) ∧
      m.report todos = ⟨listing, .success⟩ ∧
      (ReportMode.list m).lines (m.report todos) = listing.map line ∧
      Function.Injective Date.chars ∧
      ((∀ t ∈ todos, ∀ d, t.dueDate = some d → 0 ≤ d.year ∧ d.year ≤ 9999) →
        listing.Pairwise fun t u => ∀ d e, t.dueDate = some d → u.dueDate = some e →
          m.direction.Precedes d e) := by
  have hlisting := isListing_listed h todos
  have hreport : m.report todos = ⟨m.listed todos, .success⟩ := by
    rw [report, h]
    rfl
  refine ⟨m.listed todos, hlisting, fun other hother => hother.unique hlisting, hreport, ?_,
    Date.chars_injective, hlisting.chronological⟩
  rw [hreport]
  rfl

/-- Of three todos, two of them due on the same leap day. -/
theorem report_isListing_leapDay :
    ∃ listing, IsListing .ascending
        [⟨"anna", Date.ofYearMonthDay? 2024 2 29, "A.java", 1, 1⟩,
          ⟨"unassigned", Date.ofYearMonthDay? (-1) 1 1, "A.java", 2, 1⟩,
          ⟨"bert", Date.ofYearMonthDay? 2024 2 29, "A.java", 3, 1⟩] listing ∧
      report ⟨none, .ascending, false, ⟨2024, 3, 1, by decide, by decide, by decide⟩⟩
        [⟨"anna", Date.ofYearMonthDay? 2024 2 29, "A.java", 1, 1⟩,
          ⟨"unassigned", Date.ofYearMonthDay? (-1) 1 1, "A.java", 2, 1⟩,
          ⟨"bert", Date.ofYearMonthDay? 2024 2 29, "A.java", 3, 1⟩] = ⟨listing, .success⟩ := by
  obtain ⟨listing, hlisting, -, hreport, -⟩ :=
    report_isListing (m := ⟨none, .ascending, false, ⟨2024, 3, 1, by decide, by decide, by decide⟩⟩)
      rfl [⟨"anna", Date.ofYearMonthDay? 2024 2 29, "A.java", 1, 1⟩,
        ⟨"unassigned", Date.ofYearMonthDay? (-1) 1 1, "A.java", 2, 1⟩,
        ⟨"bert", Date.ofYearMonthDay? 2024 2 29, "A.java", 3, 1⟩]
  exact ⟨listing, hlisting, hreport⟩

end ListMode

end TodoAudit
