import TodoAudit.Proofs.Report.Agenda

/-!
# What is overdue

The list mode that is limited to what is overdue keeps, of the whole listing, the todos that were
due before today, and fails if there are any (`report_isOverdueReport`). Todos that are due on one
date are merged before the others are left out. As only such todos are merged, none that is overdue
gives way to one that is not: each date before today on which a todo is due is listed.
-/

namespace TodoAudit

/-- The todo was due before the day. -/
def Todo.IsDueBefore (day : Date) (t : Todo) : Prop :=
  ∃ d, t.dueDate = some d ∧ d < day

instance (day : Date) : DecidablePred (Todo.IsDueBefore day) := fun t =>
  decidable_of_iff (t.dueDate.any fun d => d < day) (by
    rw [Todo.IsDueBefore]
    cases t.dueDate <;> simp)

/-- The dates before the day on which a todo is due, each of them once. -/
def datesBefore (day : Date) (todos : List Todo) : List Date :=
  ((todos.filterMap Todo.dueDate).filter fun d => d < day).dedup

theorem mem_datesBefore_iff {day d : Date} {todos : List Todo} :
    d ∈ datesBefore day todos ↔ d < day ∧ ∃ t ∈ todos, t.dueDate = some d := by
  rw [datesBefore, List.mem_dedup, List.mem_filter, List.mem_filterMap, decide_eq_true_iff,
    and_comm]

namespace ListMode

variable {m : ListMode} {todos : List Todo} {t : Todo} {dates : List Date}

/-- The report is what the mode has to say about the todos that were due before today: these are
listed as they are in the whole listing, and make the report fail. -/
structure IsOverdueReport (m : ListMode) (todos : List Todo) (report : Report) : Prop where
  reported : report.reported =
    (m.whole.report todos).reported.filter fun t => t.IsDueBefore m.today
  lines : (ReportMode.list m).lines report =
    ((m.whole.report todos).reported.filter fun t => t.IsDueBefore m.today).map line
  success : report.reported = [] → report.outcome = .success
  failure : report.reported ≠ [] → report.outcome = .failure
    ("Found " ++ countTodos (datesBefore m.today todos).length ++
      " with due dates in the past. TIME TO SOLVE IT!") report.reported
  fails_iff : report.outcome ≠ .success ↔ ∃ t ∈ todos, t.IsDueBefore m.today
  complete : ∀ t ∈ todos, t.IsDueBefore m.today →
    ∃ u ∈ report.reported, u.dueDate = t.dueDate

theorem reported_report (m : ListMode) (todos : List Todo) :
    (m.report todos).reported = m.listed todos :=
  rfl

/-- The agenda of a limited mode has the dates before today. -/
theorem mem_agenda_iff (h : m.overdueOnly = true) (hdates : IsAgenda m todos dates) {d : Date} :
    d ∈ dates ↔ d ∈ datesBefore m.today todos := by
  rw [hdates.mem_iff, mem_datesBefore_iff, Covers, imp_iff_right h]

theorem length_agenda (h : m.overdueOnly = true) (hdates : IsAgenda m todos dates) :
    dates.length = (datesBefore m.today todos).length := by
  refine List.Perm.length_eq ?_
  refine (List.perm_ext_iff_of_nodup hdates.nodup (List.nodup_dedup _)).2 fun d => ?_
  exact mem_agenda_iff h hdates

/-- There are as many todos in the limited listing as there are dates. -/
theorem length_listed (h : m.overdueOnly = true) (todos : List Todo) :
    (m.listed todos).length = (datesBefore m.today todos).length := by
  obtain ⟨dates, hdates, hmap⟩ := exists_isAgenda m todos
  have hlen := congrArg List.length hmap
  rw [List.length_map, List.length_map] at hlen
  exact hlen.trans (length_agenda h hdates)

/-- No todo that was due before today is left out for one that was not. -/
theorem exists_listed (ht : t ∈ todos) (hdue : t.IsDueBefore m.today) :
    ∃ u ∈ m.listed todos, u.dueDate = t.dueDate := by
  obtain ⟨d, hd, hlt⟩ := hdue
  obtain ⟨u, hu, hlast⟩ := exists_lastDue? ⟨t, ht, hd⟩
  exact ⟨u, mem_listed_iff_covers.2 ⟨d, hu, fun _ => hlt, hlast⟩, hu.trans hd.symm⟩

theorem listed_ne_nil_iff (h : m.overdueOnly = true) :
    m.listed todos ≠ [] ↔ ∃ t ∈ todos, t.IsDueBefore m.today := by
  constructor
  · intro hne
    obtain ⟨u, hu⟩ := List.exists_mem_of_ne_nil _ hne
    obtain ⟨d, hd, hcovers, hlast⟩ := mem_listed_iff_covers.1 hu
    exact ⟨u, (mem_of_lastDue? hlast).1, d, hd, hcovers h⟩
  · rintro ⟨t, ht, hdue⟩
    obtain ⟨u, hu, -⟩ := exists_listed ht hdue
    exact List.ne_nil_of_mem hu

theorem listed_eq_filter_isDueBefore (h : m.overdueOnly = true) (todos : List Todo) :
    m.listed todos = (m.whole.report todos).reported.filter fun t => t.IsDueBefore m.today := by
  rw [listed_eq_filter h, reported_report]
  refine List.filter_congr fun t _ => ?_
  rw [Bool.eq_iff_iff, isOverdue_iff, decide_eq_true_iff]
  rfl

theorem outcome_of_nil (hnil : m.listed todos = []) : (m.report todos).outcome = .success := by
  rw [report, hnil]
  simp

theorem outcome_of_ne_nil (h : m.overdueOnly = true) (hne : m.listed todos ≠ []) :
    (m.report todos).outcome = .failure
      ("Found " ++ countTodos (datesBefore m.today todos).length ++
        " with due dates in the past. TIME TO SOLVE IT!") (m.listed todos) := by
  have hempty : (m.listed todos).isEmpty = false := by simpa using hne
  rw [report, ← length_listed h]
  simp [h, hempty]

/-- The list mode that is limited to what is overdue lists the todos of the whole listing that were
due before today, in the same order. It fails because of them if there are any, and says how many
dates they are due on; and there are some exactly if any of the todos was due before today. -/
theorem report_isOverdueReport (h : m.overdueOnly = true) (todos : List Todo) :
    IsOverdueReport m todos (m.report todos) := by
  have hlisted := listed_eq_filter_isDueBefore h todos
  refine ⟨hlisted, ?_, outcome_of_nil, outcome_of_ne_nil h, ?_, fun t => exists_listed⟩
  · rw [ReportMode.lines, reported_report, hlisted]
    rfl
  · rw [← listed_ne_nil_iff h, not_iff_not]
    constructor
    · intro hsuccess
      by_contra hne
      rw [outcome_of_ne_nil h hne] at hsuccess
      cases hsuccess
    · exact outcome_of_nil

/-- Of four todos, two due on the same day before the year one, one today and one later. -/
theorem report_isOverdueReport_beforeYearOne :
    IsOverdueReport ⟨none, .descending, true, ⟨12024, 3, 1, by decide, by decide, by decide⟩⟩
        [⟨"anna", Date.ofYearMonthDay? (-1) 12 31, "A.java", 1, 1⟩,
          ⟨"bert", Date.ofYearMonthDay? 12024 3 1, "A.java", 2, 1⟩,
          ⟨"carl", Date.ofYearMonthDay? (-1) 12 31, "A.java", 3, 1⟩,
          ⟨"dora", Date.ofYearMonthDay? 12024 2 29, "A.java", 4, 1⟩]
        ⟨[⟨"carl", Date.ofYearMonthDay? (-1) 12 31, "A.java", 3, 1⟩,
            ⟨"dora", Date.ofYearMonthDay? 12024 2 29, "A.java", 4, 1⟩],
          .failure "Found 2 TODOs with due dates in the past. TIME TO SOLVE IT!"
            [⟨"carl", Date.ofYearMonthDay? (-1) 12 31, "A.java", 3, 1⟩,
              ⟨"dora", Date.ofYearMonthDay? 12024 2 29, "A.java", 4, 1⟩]⟩ := by
  have h := report_isOverdueReport
    (m := ⟨none, .descending, true, ⟨12024, 3, 1, by decide, by decide, by decide⟩⟩) rfl
    [⟨"anna", Date.ofYearMonthDay? (-1) 12 31, "A.java", 1, 1⟩,
      ⟨"bert", Date.ofYearMonthDay? 12024 3 1, "A.java", 2, 1⟩,
      ⟨"carl", Date.ofYearMonthDay? (-1) 12 31, "A.java", 3, 1⟩,
      ⟨"dora", Date.ofYearMonthDay? 12024 2 29, "A.java", 4, 1⟩]
  exact h

end ListMode

end TodoAudit
