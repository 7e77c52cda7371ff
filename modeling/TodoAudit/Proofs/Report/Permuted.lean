import TodoAudit.Proofs.Report.Agenda

/-!
# Reports of todos in another order

The order in which todos are found decides which of several todos for one date is listed, and in
which order the verify mode objects to todos. All else about a report is the same for the same todos
in any order (`report_perm`): how it ends, how many lines it has, and in the list mode the reason of
a failure and the dates of the lines.
-/

namespace TodoAudit

/-! ## Outcomes -/

namespace Outcome

/-- The reason of a failure. -/
def reason? : Outcome → Option String
  | .success => none
  | .failure reason _ => some reason

/-- The todos because of which a report failed. -/
def blamed : Outcome → List Todo
  | .success => []
  | .failure _ todos => todos

theorem reason?_eq_none_iff {o : Outcome} : o.reason? = none ↔ o = .success := by
  cases o <;> simp [reason?]

end Outcome

variable {todos todos' : List Todo} {t : Todo} {d : Date}

/-! ## The list mode -/

/-- If no two todos share a due date, the one that is due on a date is the last one. -/
theorem lastDue?_eq_some_iff (hnodup : (todos.map Todo.dueDate).Nodup) :
    lastDue? todos d = some t ↔ t ∈ todos ∧ t.dueDate = some d := by
  constructor
  · exact mem_of_lastDue?
  · rintro ⟨ht, hd⟩
    obtain ⟨u, hu, hlast⟩ := exists_lastDue? ⟨t, ht, hd⟩
    rw [hlast, List.inj_on_of_nodup_map hnodup (mem_of_lastDue? hlast).1 ht (hu.trans hd.symm)]

theorem lastDue?_perm (h : todos.Perm todos') (hnodup : (todos.map Todo.dueDate).Nodup) :
    lastDue? todos d = lastDue? todos' d := by
  have hnodup' : (todos'.map Todo.dueDate).Nodup := (h.map _).nodup_iff.1 hnodup
  ext t
  rw [lastDue?_eq_some_iff hnodup, lastDue?_eq_some_iff hnodup', h.mem_iff]

namespace ListMode

variable {m : ListMode}

/-- If no two todos share a due date, their order does not matter. -/
theorem listed_perm_of_nodup (m : ListMode) (h : todos.Perm todos')
    (hnodup : (todos.map Todo.dueDate).Nodup) : m.listed todos = m.listed todos' := by
  have hlisting := isListing_whole m todos'
  have hwhole : m.whole.listed todos = m.whole.listed todos' := by
    refine (isListing_whole m todos).unique ⟨hlisting.dated, ?_, hlisting.sorted⟩
    intro d
    rw [hlisting.last, lastDue?_perm h hnodup]
  cases hlimit : m.overdueOnly with
  | false => rw [listed_whole hlimit, listed_whole hlimit, hwhole]
  | true => rw [listed_eq_filter hlimit, listed_eq_filter hlimit, hwhole]

/-- The listings follow one agenda. -/
theorem exists_dates_of_perm (m : ListMode) (h : todos.Perm todos') :
    ∃ dates : List Date, (m.listed todos).map Todo.dueDate = dates.map some ∧
      (m.listed todos').map Todo.dueDate = dates.map some := by
  obtain ⟨dates, hdates, hmap⟩ := exists_isAgenda m todos
  obtain ⟨dates', hdates', hmap'⟩ := exists_isAgenda m todos'
  exact ⟨dates, hmap, (hdates.perm h).unique hdates' ▸ hmap'⟩

theorem length_listed_perm (m : ListMode) (h : todos.Perm todos') :
    (m.listed todos).length = (m.listed todos').length := by
  obtain ⟨dates, hdates, hdates'⟩ := exists_dates_of_perm m h
  have hlen := congrArg List.length (hdates.trans hdates'.symm)
  rwa [List.length_map, List.length_map] at hlen

/-- The reason of a failure depends on how many todos are listed only. -/
theorem reason?_report_congr (h : (m.listed todos).length = (m.listed todos').length) :
    (m.report todos).outcome.reason? = (m.report todos').outcome.reason? := by
  have hempty : (m.listed todos).isEmpty = (m.listed todos').isEmpty := by
    rw [Bool.eq_iff_iff, List.isEmpty_iff_length_eq_zero, List.isEmpty_iff_length_eq_zero, h]
  simp only [report, hempty, h]
  split <;> rfl

theorem mem_of_mem_listed (h : t ∈ m.listed todos) : t ∈ todos := by
  obtain ⟨d, -, -, hlast⟩ := mem_listed_iff_covers.1 h
  exact (mem_of_lastDue? hlast).1

end ListMode

/-! ## The verify mode -/

namespace VerifyMode

theorem blamed_report (todos : List Todo) : (report todos).outcome.blamed = todos := by
  cases todos <;> rfl

theorem outcome_report_eq_success_iff : (report todos).outcome = .success ↔ todos = [] := by
  cases todos <;> simp [report]

end VerifyMode

/-! ## Either mode -/

namespace ReportMode

theorem outcome_eq_success_iff_of_perm (mode : ReportMode) (h : todos.Perm todos') :
    (mode.report todos).outcome = .success ↔ (mode.report todos').outcome = .success := by
  cases mode with
  | list m =>
    have hreason := ListMode.reason?_report_congr (m.length_listed_perm h)
    rw [← Outcome.reason?_eq_none_iff, ← Outcome.reason?_eq_none_iff]
    simp only [report, hreason]
  | verify =>
    simp only [report, VerifyMode.outcome_report_eq_success_iff]
    rw [← List.length_eq_zero_iff, ← List.length_eq_zero_iff, h.length_eq]

theorem length_lines_of_perm (mode : ReportMode) (h : todos.Perm todos') :
    (mode.lines (mode.report todos)).length = (mode.lines (mode.report todos')).length := by
  rw [lines, lines, List.length_map, List.length_map]
  cases mode with
  | list m => exact m.length_listed_perm h
  | verify => exact h.length_eq

/-- The report on those of the todos in which the mode is interested. -/
def reportOn (mode : ReportMode) (todos : List Todo) : Report :=
  mode.report (mode.filter todos)

/-- A report does not depend on the order in which todos are found, but for which of several todos
for one date is listed, and for the order of what the verify mode objects to. In either mode it ends
alike and has as many lines. In the list mode it has the same reason and the same dates in the same
order, each with one of the todos, and if no two todos share a due date it is the same report. -/
theorem report_perm (mode : ReportMode) (h : todos.Perm todos') :
    ((mode.reportOn todos).outcome = .success ↔ (mode.reportOn todos').outcome = .success) ∧
      (mode.lines (mode.reportOn todos)).length = (mode.lines (mode.reportOn todos')).length ∧
      (∀ m, mode = .list m →
        (mode.reportOn todos).outcome.reason? = (mode.reportOn todos').outcome.reason? ∧
          (∃ dates : List Date, (mode.reportOn todos).reported.map Todo.dueDate = dates.map some ∧
            (mode.reportOn todos').reported.map Todo.dueDate = dates.map some) ∧
          (mode.reportOn todos).reported ⊆ mode.filter todos ∧
          (mode.reportOn todos').reported ⊆ mode.filter todos' ∧
          (((mode.filter todos).map Todo.dueDate).Nodup →
            mode.reportOn todos = mode.reportOn todos' ∧
              mode.lines (mode.reportOn todos) = mode.lines (mode.reportOn todos'))) ∧
      (mode = .verify →
        (mode.lines (mode.reportOn todos)).Perm (mode.lines (mode.reportOn todos')) ∧
          (mode.reportOn todos).outcome.blamed.Perm (mode.reportOn todos').outcome.blamed) := by
  have hfilter : (mode.filter todos).Perm (mode.filter todos') := h.filter mode.accepts
  refine ⟨mode.outcome_eq_success_iff_of_perm hfilter, mode.length_lines_of_perm hfilter, ?_, ?_⟩
  · rintro m rfl
    refine ⟨ListMode.reason?_report_congr (m.length_listed_perm hfilter),
      m.exists_dates_of_perm hfilter, fun t => ListMode.mem_of_mem_listed,
      fun t => ListMode.mem_of_mem_listed, ?_⟩
    intro hnodup
    have hreport : reportOn (.list m) todos = reportOn (.list m) todos' := by
      rw [reportOn, reportOn, report, ListMode.report, ListMode.report,
        m.listed_perm_of_nodup hfilter hnodup]
    exact ⟨hreport, congrArg (lines (.list m)) hreport⟩
  · rintro rfl
    refine ⟨hfilter.map _, ?_⟩
    rw [reportOn, reportOn, report, VerifyMode.blamed_report, VerifyMode.blamed_report]
    exact hfilter

/-- Two overdue todos in either order. If they are due on one date, it is another one that is listed
but for the same reason, and if they are not, it is the same report. -/
theorem report_perm_twoTodos :
    ((ReportMode.list ⟨none, .ascending, true,
        ⟨2024, 3, 1, by decide, by decide, by decide⟩⟩).reportOn
      [⟨"anna", Date.ofYearMonthDay? 2024 2 29, "A.java", 1, 1⟩,
        ⟨"bert", Date.ofYearMonthDay? 2024 2 29, "B.java", 1, 1⟩]).outcome.reason? =
    ((ReportMode.list ⟨none, .ascending, true,
        ⟨2024, 3, 1, by decide, by decide, by decide⟩⟩).reportOn
      [⟨"bert", Date.ofYearMonthDay? 2024 2 29, "B.java", 1, 1⟩,
        ⟨"anna", Date.ofYearMonthDay? 2024 2 29, "A.java", 1, 1⟩]).outcome.reason? ∧
    (ReportMode.list ⟨none, .ascending, true,
        ⟨2024, 3, 1, by decide, by decide, by decide⟩⟩).reportOn
      [⟨"anna", Date.ofYearMonthDay? 2024 2 29, "A.java", 1, 1⟩,
        ⟨"bert", Date.ofYearMonthDay? (-1) 12 31, "B.java", 1, 1⟩] =
    (ReportMode.list ⟨none, .ascending, true,
        ⟨2024, 3, 1, by decide, by decide, by decide⟩⟩).reportOn
      [⟨"bert", Date.ofYearMonthDay? (-1) 12 31, "B.java", 1, 1⟩,
        ⟨"anna", Date.ofYearMonthDay? 2024 2 29, "A.java", 1, 1⟩] := by
  obtain ⟨-, -, hshared, -⟩ := report_perm
    (.list ⟨none, .ascending, true, ⟨2024, 3, 1, by decide, by decide, by decide⟩⟩)
    (List.Perm.swap ⟨"bert", Date.ofYearMonthDay? 2024 2 29, "B.java", 1, 1⟩
      ⟨"anna", Date.ofYearMonthDay? 2024 2 29, "A.java", 1, 1⟩ [])
  obtain ⟨-, -, happart, -⟩ := report_perm
    (.list ⟨none, .ascending, true, ⟨2024, 3, 1, by decide, by decide, by decide⟩⟩)
    (List.Perm.swap ⟨"bert", Date.ofYearMonthDay? (-1) 12 31, "B.java", 1, 1⟩
      ⟨"anna", Date.ofYearMonthDay? 2024 2 29, "A.java", 1, 1⟩ [])
  refine ⟨(hshared _ rfl).1, ?_⟩
  exact ((happart _ rfl).2.2.2.2 (by decide)).1

end ReportMode

end TodoAudit
