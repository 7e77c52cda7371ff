import Mathlib
import TodoAudit.Audit
import TodoAudit.Proofs.Success

/-!
# What a scan finds

A scan that succeeds has read every source file as text. Its todos are those of the todo comments of
the texts, one for each comment, file by file and in the order of the text (`scan_eq_ok_iff`).
-/

namespace TodoAudit

/-! ## Files as texts -/

namespace FileContents

variable {contents : FileContents} {text : String} {fault : FileFault}

theorem text_eq_ok_iff : contents.text = .ok text ↔
    ∃ bytes, contents = .ok bytes ∧ String.fromUTF8? bytes = some text := by
  rw [FileContents.text, Success.bind_eq_ok_iff]
  refine exists_congr fun bytes => and_congr_right fun _ => ?_
  cases String.fromUTF8? bytes <;> simp [pure, Except.pure, throw, throwThe, MonadExceptOf.throw]

/-- There are two ways in which a file is not read as text. -/
theorem text_eq_error_iff : contents.text = .error fault ↔ contents = .error fault ∨
    fault = .notText ∧ ∃ bytes, contents = .ok bytes ∧ String.fromUTF8? bytes = none := by
  rw [FileContents.text, Success.bind_eq_error_iff]
  refine or_congr_right ?_
  rw [← exists_and_left]
  refine exists_congr fun bytes => ?_
  cases String.fromUTF8? bytes <;>
    simp [pure, Except.pure, throw, throwThe, MonadExceptOf.throw, and_comm, eq_comm]

end FileContents

/-- The text of a source file, and the path under which the file was found. -/
structure SourceText where
  path : String
  text : String

/-- The file can be read, and its bytes are this text. -/
def SourceText.IsTextOf (s : SourceText) (f : FoundFile) : Prop :=
  s.path = f.path ∧ ∃ bytes, f.contents = .ok bytes ∧ String.fromUTF8? bytes = some s.text

/-- A todo comment, and the source text in which it stands. -/
structure TodoComment where
  source : SourceText
  comment : Comment

/-- The todo comments of the source texts, in their order. -/
def todoComments (sources : List SourceText) : List TodoComment :=
  sources.flatMap fun s => (Comment.todos s.text.toList).map fun c => ⟨s, c⟩

namespace TodoReader

/-- The todo of a todo comment. -/
def record (r : TodoReader) (t : TodoComment) : Todo :=
  r.todo t.source.path t.source.text.toList t.comment

/-- What a todo comment says about when it is due. -/
def due (r : TodoReader) (t : TodoComment) : DueDate :=
  r.dueDate t.comment.text

variable {r : TodoReader} {f : FoundFile} {files : List FoundFile} {s : SourceText}
  {sources : List SourceText} {t : TodoComment} {found : List Todo} {perFile : List (List Todo)}

theorem dueDate_record : (r.record t).dueDate = (r.due t).toDate? :=
  rfl

theorem todosOf_eq_ok_iff :
    r.todosOf f = .ok found ↔
      ∃ s : SourceText, s.IsTextOf f ∧ found = r.todos s.path s.text.toList := by
  rw [todosOf, Success.bind_eq_ok_iff]
  constructor
  · rintro ⟨text, htext, ⟨⟩⟩
    rw [Success.mapError_eq_ok_iff, FileContents.text_eq_ok_iff] at htext
    exact ⟨⟨f.path, text⟩, ⟨rfl, htext⟩, rfl⟩
  · rintro ⟨s, ⟨hpath, htext⟩, rfl⟩
    refine ⟨s.text, ?_, by rw [hpath]; rfl⟩
    exact Success.mapError_eq_ok_iff.2 (FileContents.text_eq_ok_iff.2 htext)

/-- The files are read one after the other, and each of them is text. -/
theorem forall₂_todosOf_iff :
    List.Forall₂ (fun f found => r.todosOf f = .ok found) files perFile ↔
      ∃ sources, List.Forall₂ (fun f s => SourceText.IsTextOf s f) files sources ∧
        perFile = sources.map fun s => r.todos s.path s.text.toList := by
  constructor
  · intro h
    induction h with
    | nil => exact ⟨[], .nil, rfl⟩
    | cons hf _ ih =>
      obtain ⟨s, hs, rfl⟩ := todosOf_eq_ok_iff.1 hf
      obtain ⟨sources, hsources, rfl⟩ := ih
      exact ⟨s :: sources, .cons hs hsources, rfl⟩
  · rintro ⟨sources, h, rfl⟩
    induction h with
    | nil => exact .nil
    | cons hs _ ih => exact .cons (todosOf_eq_ok_iff.2 ⟨_, hs, rfl⟩) ih

/-- The todos of the files, all in one list, are the todos of the comments. -/
theorem flatten_todos : (sources.map fun s => r.todos s.path s.text.toList).flatten =
    (todoComments sources).map r.record := by
  rw [← List.flatMap_def, todoComments, List.map_flatMap]
  simp only [List.map_map]
  rfl

end TodoReader

variable {tree : FileTree} {root : String} {config : Config} {todos : List Todo}

/-- A scan succeeds if the rules can be followed, the tree can be walked and every source file is
text. It then finds the todos of the todo comments. -/
theorem scan_eq_ok_iff : scan tree root config = .ok todos ↔
    ∃ reader files sources, TodoReader.ofRules config.rules = .ok reader ∧
      tree.find root config.extensions = .ok files ∧
      List.Forall₂ (fun f s => SourceText.IsTextOf s f) files sources ∧
      todos = (todoComments sources).map reader.record := by
  rw [scan, Success.bind_eq_ok_iff]
  constructor
  · rintro ⟨reader, hreader, h⟩
    obtain ⟨files, hfiles, h⟩ := Success.bind_eq_ok_iff.1 h
    obtain ⟨perFile, hperFile, h⟩ := Success.bind_eq_ok_iff.1 h
    cases h
    obtain ⟨sources, hsources, rfl⟩ :=
      TodoReader.forall₂_todosOf_iff.1 (Success.mapM_eq_ok_iff.1 hperFile)
    exact ⟨reader, files, sources, Success.mapError_eq_ok_iff.1 hreader,
      Success.mapError_eq_ok_iff.1 hfiles, hsources, TodoReader.flatten_todos⟩
  · rintro ⟨reader, files, sources, hreader, hfiles, hsources, rfl⟩
    have hperFile := Success.mapM_eq_ok_iff.2
      (TodoReader.forall₂_todosOf_iff (r := reader).2 ⟨sources, hsources, rfl⟩)
    refine ⟨reader, Success.mapError_eq_ok_iff.2 hreader, Success.bind_eq_ok_iff.2
      ⟨files, Success.mapError_eq_ok_iff.2 hfiles, Success.bind_eq_ok_iff.2 ⟨_, hperFile, ?_⟩⟩⟩
    rw [TodoReader.flatten_todos]
    rfl

/-- An audit succeeds if its scan does. -/
theorem audit_of_scan (mode : ReportMode) (h : scan tree root config = .ok todos) :
    audit tree root config mode = .ok (mode.report (mode.filter todos)) := by
  rw [audit, Success.bind_eq_ok_iff]
  exact ⟨todos, h, rfl⟩

end TodoAudit
