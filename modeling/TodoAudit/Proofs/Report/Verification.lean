import Mathlib
import TodoAudit.Proofs.Scanning

/-!
# The verify mode as a gate

An audit in the verify mode passes exactly the trees in which every todo comment is due on a date.
Otherwise it fails because of the todos of the other comments, all of them and in their order, and
says so of each (`audit_verify`). What it has no objection to is what the list mode looks at.
-/

namespace TodoAudit

/-! ## Comments without a date -/

namespace DueDate

/-- There is no date: no phrase announces one, or what follows the phrase is none. -/
inductive Undated : DueDate → Prop
  | missing : Undated .missing
  | unreadable {phrase text : List Char} : Undated (.unreadable phrase text)

variable {due : DueDate}

theorem undated_iff : due.Undated ↔ due.toDate? = none := by
  constructor
  · intro h
    cases h <;> rfl
  · intro h
    cases due with
    | missing => exact .missing
    | unreadable phrase text => exact .unreadable
    | date d => cases h

theorem not_undated_iff : ¬ due.Undated ↔ ∃ d, due = .date d := by
  rw [undated_iff]
  cases due <;> simp [toDate?]

instance : DecidablePred Undated := fun _ => decidable_of_iff' _ undated_iff

end DueDate

namespace TodoReader

variable {r : TodoReader} {comments : List TodoComment}

/-- The todos of the comments without a date. -/
def undated (r : TodoReader) (comments : List TodoComment) : List Todo :=
  (comments.filter fun t => (r.due t).Undated).map r.record

/-- The todos of the comments with a date. -/
def dated (r : TodoReader) (comments : List TodoComment) : List Todo :=
  (comments.filter fun t => ¬ (r.due t).Undated).map r.record

theorem undated_eq_nil_iff : r.undated comments = [] ↔ ∀ t ∈ comments, ∃ d, r.due t = .date d := by
  rw [undated, List.map_eq_nil_iff, List.filter_eq_nil_iff]
  simp only [decide_eq_true_eq, DueDate.not_undated_iff]

/-- The verify mode is interested in the todos without a date. -/
theorem filter_verify : ReportMode.verify.filter (comments.map r.record) = r.undated comments := by
  rw [ReportMode.filter, undated, List.filter_map]
  congr 2
  funext t
  rw [Bool.eq_iff_iff, decide_eq_true_iff, DueDate.undated_iff, ← dueDate_record]
  exact Option.isNone_iff_eq_none

/-- The list mode, if it asks for no assignee, is interested in the other ones. -/
theorem filter_list {m : ListMode} (h : m.assignee = none) :
    (ReportMode.list m).filter (comments.map r.record) = r.dated comments := by
  rw [ReportMode.filter, dated, List.filter_map]
  congr 2
  funext t
  rw [Bool.eq_iff_iff, decide_eq_true_iff, DueDate.undated_iff, ← dueDate_record,
    Function.comp_apply, ReportMode.accepts, ListMode.accepts, h, Option.all_none, Bool.and_true,
    Option.isSome_iff_ne_none]

end TodoReader

/-! ## The reason of a failure -/

namespace VerifyMode

variable {t : Todo} {todos : List Todo}

theorem location_isInfix_whereabouts (t : Todo) :
    t.location.toList <:+: (whereabouts t).toList := by
  rw [whereabouts]
  split
  · exact List.infix_refl _
  · rw [String.toList_append]
    exact (List.suffix_append _ _).isInfix

/-- Every one of the joined parts stands in the whole. -/
theorem isInfix_intercalate (sep : String) {part : String} {parts : List String}
    (h : part ∈ parts) : part.toList <:+: (sep.intercalate parts).toList := by
  rw [String.toList_intercalate]
  induction parts with
  | nil => cases h
  | cons first rest ih =>
    rcases List.mem_cons.1 h with rfl | hrest
    · cases rest with
      | nil => rw [List.map_singleton, List.intercalate_singleton]
      | cons second rest =>
        rw [List.map_cons, List.map_cons, List.intercalate_cons_cons, List.append_assoc]
        exact (List.prefix_append _ _).isInfix
    · have hne : rest.map String.toList ≠ [] := by
        simpa using List.ne_nil_of_mem hrest
      rw [List.map_cons, List.intercalate_cons_of_ne_nil hne]
      exact (ih hrest).trans (List.suffix_append _ _).isInfix

theorem countTodos_eq (n : Nat) :
    ∃ ending, countTodos n = toString n ++ " TODO" ++ ending := by
  rw [countTodos]
  split
  · rename_i h
    subst h
    exact ⟨"", rfl⟩
  · exact ⟨"s", by rw [String.append_assoc]; rfl⟩

/-- The reason begins with how many todos there are, and says of each where it stands. -/
structure IsReason (todos : List Todo) (reason : String) : Prop where
  count : ("Found " ++ toString todos.length ++ " TODO").toList <+: reason.toList
  locations : ∀ t ∈ todos, t.location.toList <:+: reason.toList

/-- Whatever is objected to, there is a reason. -/
theorem report_of_ne_nil (h : todos ≠ []) :
    ∃ reason, report todos = ⟨todos, .failure reason todos⟩ ∧ IsReason todos reason := by
  refine ⟨_, by rw [report, if_neg (by simpa using h)], ?_, ?_⟩
  · obtain ⟨ending, hcount⟩ := countTodos_eq todos.length
    rw [hcount]
    simp only [String.toList_append, List.append_assoc]
    simp
  · intro t ht
    have hmem : whereabouts t ∈ todos.map whereabouts := List.mem_map_of_mem ht
    have hjoined := isInfix_intercalate ", " hmem
    rw [String.toList_append, String.toList_append]
    exact ((location_isInfix_whereabouts t).trans hjoined).trans (List.infix_append _ _ _)

end VerifyMode

/-! ## The gate -/

/-- The report is what the verify mode has to say about the todo comments. -/
structure IsVerdict (reader : TodoReader) (comments : List TodoComment) (report : Report) :
    Prop where
  success_iff : report.outcome = .success ∧ ReportMode.verify.lines report = [] ↔
    ∀ t ∈ comments, ∃ d, reader.due t = .date d
  failure : (¬ ∀ t ∈ comments, ∃ d, reader.due t = .date d) →
    ∃ reason, report.outcome = .failure reason (reader.undated comments) ∧
      VerifyMode.IsReason (reader.undated comments) reason
  lines : ReportMode.verify.lines report = (reader.undated comments).map VerifyMode.line

variable {reader : TodoReader} {comments : List TodoComment}

theorem isVerdict_report :
    IsVerdict reader comments (ReportMode.verify.report (reader.undated comments)) := by
  by_cases h : reader.undated comments = []
  · have hdated := TodoReader.undated_eq_nil_iff.1 h
    rw [h]
    refine ⟨?_, ?_, ?_⟩
    · exact ⟨fun _ => hdated, fun _ => ⟨rfl, rfl⟩⟩
    · intro hnot
      exact absurd hdated hnot
    · rw [h]
      rfl
  · obtain ⟨reason, hreport, hreason⟩ := VerifyMode.report_of_ne_nil h
    rw [ReportMode.report, hreport]
    refine ⟨?_, ?_, rfl⟩
    · constructor
      · rintro ⟨hsuccess, -⟩
        cases hsuccess
      · intro hdated
        exact absurd (TodoReader.undated_eq_nil_iff.2 hdated) h
    · intro _
      exact ⟨reason, rfl, hreason⟩

variable {tree : FileTree} {root : String} {config : Config} {found : List Todo}

/-- If the scan of a tree succeeds, so does the audit that verifies. It passes if every todo comment
of every source file is due on a date, and else objects to the other comments. What it has no
objection to is what any list mode without an assignee looks at. -/
theorem audit_verify (h : scan tree root config = .ok found) :
    ∃ reader files sources report,
      TodoReader.ofRules config.rules = .ok reader ∧
      tree.find root config.extensions = .ok files ∧
      List.Forall₂ (fun f s => SourceText.IsTextOf s f) files sources ∧
      audit tree root config .verify = .ok report ∧
      IsVerdict reader (todoComments sources) report ∧
      found = (todoComments sources).map reader.record ∧
      ReportMode.verify.filter found = reader.undated (todoComments sources) ∧
      ∀ mode : ListMode, mode.assignee = none →
        (ReportMode.list mode).filter found = reader.dated (todoComments sources) := by
  obtain ⟨reader, files, sources, hreader, hfiles, hsources, rfl⟩ := scan_eq_ok_iff.1 h
  refine ⟨reader, files, sources, _, hreader, hfiles, hsources, audit_of_scan .verify h, ?_, rfl,
    TodoReader.filter_verify, fun mode => TodoReader.filter_list⟩
  rw [TodoReader.filter_verify]
  exact isVerdict_report

/-- A tree with one comment that is due and one that is not. -/
theorem audit_verify_twoComments :
    ∃ reader files sources report,
      TodoReader.ofRules {} = .ok reader ∧
      FileTree.find ⟨.directory [("A.java",
        .file "// TODO due to 03.12.2011\n// TODO".toUTF8)], []⟩ "." [".java"] = .ok files ∧
      List.Forall₂ (fun f s => SourceText.IsTextOf s f) files sources ∧
      audit ⟨.directory [("A.java",
        .file "// TODO due to 03.12.2011\n// TODO".toUTF8)], []⟩ "." ⟨{}, [".java"]⟩ .verify =
          .ok report ∧
      IsVerdict reader (todoComments sources) report := by
  have h : scan ⟨.directory [("A.java",
      .file "// TODO due to 03.12.2011\n// TODO".toUTF8)], []⟩ "." ⟨{}, [".java"]⟩ =
      .ok [⟨"unassigned", Date.ofYearMonthDay? 2011 12 3, "./A.java", 1, 1⟩,
        ⟨"unassigned", none, "./A.java", 2, 1⟩] := by cbv
  obtain ⟨reader, files, sources, report, hreader, hfiles, hsources, haudit, hverdict, -⟩ :=
    audit_verify h
  exact ⟨reader, files, sources, report, hreader, hfiles, hsources, haudit, hverdict⟩

end TodoAudit
