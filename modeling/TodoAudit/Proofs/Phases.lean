import Mathlib
import TodoAudit.CommandLine.Run
import TodoAudit.Proofs.Scanning
import TodoAudit.Proofs.SourceTree.Search
import TodoAudit.Proofs.SourceTree.Shape

/-!
# The phases of a scan

A scan takes up the rules, walks the tree and reads the source files, in this order, and ends with
the first thing that goes wrong (`Scans`). A source file goes wrong if its bytes cannot be had, or
if they are no text (`FileTree.Unreadable`). What goes wrong on the walk does not depend on what
stands in the files or on which of them can be read, and nothing depends on other than source files.
A run of the program that cannot finish its scan shows nothing but the error (`scan_in_phases`).
-/

namespace TodoAudit

open FileTree

/-! ## Source files -/

namespace FileTree

/-- The path leads to a file that can be read, and its bytes are the text. -/
def HoldsText (tree : FileTree) (path text : String) : Prop :=
  ∃ location bytes, tree.Leads path location (.file bytes) ∧ String.fromUTF8? bytes = some text

/-- The path leads to a file that is not read as text, because its bytes cannot be had or because
they are no text. -/
inductive Unreadable (tree : FileTree) (path : String) : FileFault → Prop
  | refused {location : List String} {fault : FileFault} :
      tree.Leads path location (.unreadable fault) → Unreadable tree path fault
  | notText {location : List String} {bytes : ByteArray} :
      tree.Leads path location (.file bytes) → String.fromUTF8? bytes = none →
      Unreadable tree path .notText

end FileTree

/-- The todos of the source file to which a path leads. -/
def TodoReader.todosAt (r : TodoReader) (tree : FileTree) (path : String) :
    Except AuditError (List Todo) := do
  let text ← (tree.readText path).mapError (.unreadableFile path)
  return r.todos path text.toList

variable {tree tree' : FileTree} {root path text : String} {config : Config} {reader : TodoReader}
  {f : FoundFile} {files : List FoundFile} {found : List Todo} {fault : FileFault}
  {location : List String} {contents : FileContents} {result : Except AuditError (List Todo)}

theorem readText_of_leads (h : tree.Leads path location (.regular contents)) :
    tree.readText path = contents.text := by
  obtain ⟨⟨links, hresolve⟩, hat⟩ := h
  rw [readText, hresolve]
  simp only [bind, Except.bind, hat]

theorem readText_eq_ok_iff : tree.readText path = .ok text ↔ tree.HoldsText path text := by
  constructor
  · rw [readText, Success.bind_eq_ok_iff]
    rintro ⟨⟨location, links⟩, hresolve, h⟩
    dsimp only at h
    split at h
    · rename_i contents hat
      obtain ⟨bytes, rfl, htext⟩ := FileContents.text_eq_ok_iff.1 h
      exact ⟨location, bytes, ⟨⟨links, hresolve⟩, hat⟩, htext⟩
    · cases h
    · cases h
  · rintro ⟨location, bytes, hleads, htext⟩
    rw [readText_of_leads hleads, FileContents.text_eq_ok_iff]
    exact ⟨bytes, rfl, htext⟩

/-- What keeps a file from being read as text is the fault with which its reading fails. -/
theorem readText_eq_error_iff (h : tree.Leads path location (.regular contents)) :
    tree.readText path = .error fault ↔ tree.Unreadable path fault := by
  rw [readText_of_leads h, FileContents.text_eq_error_iff]
  constructor
  · rintro (rfl | ⟨rfl, bytes, rfl, hbytes⟩)
    · exact .refused h
    · exact .notText h hbytes
  · rintro (hleads | ⟨hleads, hbytes⟩)
    · cases (h.unique hleads).2
      exact .inl rfl
    · cases (h.unique hleads).2
      exact .inr ⟨rfl, _, rfl, hbytes⟩

theorem TodoReader.todosAt_eq_ok_iff : reader.todosAt tree path = .ok found ↔
    ∃ text, tree.HoldsText path text ∧ found = reader.todos path text.toList := by
  simp only [todosAt, Success.bind_eq_ok_iff, Success.mapError_eq_ok_iff, readText_eq_ok_iff]
  constructor
  · rintro ⟨text, htext, ⟨⟩⟩
    exact ⟨text, htext, rfl⟩
  · rintro ⟨text, htext, rfl⟩
    exact ⟨text, htext, rfl⟩

theorem TodoReader.todosAt_eq_error_iff {error : AuditError} (h : tree.IsFound f) :
    reader.todosAt tree f.path = .error error ↔
      ∃ fault, tree.Unreadable f.path fault ∧ error = .unreadableFile f.path fault := by
  obtain ⟨-, location, hleads⟩ := h
  rw [todosAt, Success.bind_eq_error_iff]
  constructor
  · rintro (hread | ⟨text, -, ⟨⟩⟩)
    obtain ⟨fault, hfault, rfl⟩ := Success.mapError_eq_error_iff.1 hread
    exact ⟨fault, (readText_eq_error_iff hleads).1 hfault, rfl⟩
  · rintro ⟨fault, hfault, rfl⟩
    refine .inl (Success.mapError_eq_error_iff.2 ⟨fault, ?_, rfl⟩)
    exact (readText_eq_error_iff hleads).2 hfault

theorem todosOf_eq (h : tree.IsFound f) : reader.todosOf f = reader.todosAt tree f.path := by
  obtain ⟨-, location, hleads⟩ := h
  rw [TodoReader.todosOf, TodoReader.todosAt, readText_of_leads hleads]

theorem mapM_todosOf (h : ∀ f ∈ files, tree.IsFound f) :
    files.mapM reader.todosOf = (files.map FoundFile.path).mapM (reader.todosAt tree) := by
  rw [List.mapM_map]
  exact Success.mapM_congr fun f hf => todosOf_eq (h f hf)

/-! ## Phases -/

/-- How a scan ends: with the fault of the rules, or else with that of the walk, or else with that
of the first source file that cannot be read, or else with the todos of the texts of all of them. -/
inductive Scans (tree : FileTree) (root : String) (config : Config) :
    Except AuditError (List Todo) → Prop
  | rules {fault : RuleFault} :
      TodoReader.ofRules config.rules = .error fault →
      Scans tree root config (.error (.rules fault))
  | walk {reader : TodoReader} {fault : WalkFault} :
      TodoReader.ofRules config.rules = .ok reader →
      tree.find root config.extensions = .error fault →
      Scans tree root config (.error (.walk fault))
  | unreadable {reader : TodoReader} {before after : List FoundFile} {f : FoundFile}
      {fault : FileFault} :
      TodoReader.ofRules config.rules = .ok reader →
      tree.find root config.extensions = .ok (before ++ f :: after) →
      (∀ g ∈ before, ∃ text, tree.HoldsText g.path text) →
      tree.Unreadable f.path fault →
      Scans tree root config (.error (.unreadableFile f.path fault))
  | found {reader : TodoReader} {files : List FoundFile} {texts : List String} :
      TodoReader.ofRules config.rules = .ok reader →
      tree.find root config.extensions = .ok files →
      List.Forall₂ (fun f text => tree.HoldsText f.path text) files texts →
      Scans tree root config
        (.ok (List.zipWith (fun f text => reader.todos f.path text.toList) files texts).flatten)

theorem scan_of_rules {fault : RuleFault} (h : TodoReader.ofRules config.rules = .error fault) :
    scan tree root config = .error (.rules fault) := by
  rw [scan, h]
  rfl

theorem scan_of_walk {fault : WalkFault} (hrules : TodoReader.ofRules config.rules = .ok reader)
    (hfind : tree.find root config.extensions = .error fault) :
    scan tree root config = .error (.walk fault) := by
  rw [scan, hrules, hfind]
  rfl

theorem isFound_of_find (hwf : tree.top.WellFormed)
    (hfind : tree.find root config.extensions = .ok files) : ∀ f ∈ files, tree.IsFound f :=
  fun _ hf => ((mem_iff_of_find hwf hfind).1 hf).2.1

/-- A scan reads what stands under the paths that the walk has found. -/
theorem scan_of_files (hwf : tree.top.WellFormed)
    (hrules : TodoReader.ofRules config.rules = .ok reader)
    (hfind : tree.find root config.extensions = .ok files) :
    scan tree root config = do
      return (← (files.map FoundFile.path).mapM (reader.todosAt tree)).flatten := by
  rw [scan, hrules, hfind, ← mapM_todosOf (isFound_of_find hwf hfind)]
  rfl

theorem scans_of_mapM_error {error : AuditError} (hwf : tree.top.WellFormed)
    (hrules : TodoReader.ofRules config.rules = .ok reader)
    (hfind : tree.find root config.extensions = .ok files)
    (h : (files.map FoundFile.path).mapM (reader.todosAt tree) = .error error) :
    Scans tree root config (.error error) := by
  obtain ⟨before, path, after, heq, hbefore, hpath⟩ := Success.mapM_eq_error_iff.1 h
  obtain ⟨before, rest, rfl, rfl, hrest⟩ := List.map_eq_append_iff.1 heq
  obtain ⟨f, after, rfl, rfl, -⟩ := List.map_eq_cons_iff.1 hrest
  have hread : ∀ g ∈ before, ∃ text, tree.HoldsText g.path text := by
    intro g hg
    obtain ⟨found, hfound⟩ := hbefore g.path (List.mem_map_of_mem hg)
    obtain ⟨text, htext, -⟩ := TodoReader.todosAt_eq_ok_iff.1 hfound
    exact ⟨text, htext⟩
  have hf : tree.IsFound f := isFound_of_find hwf hfind f (by simp)
  obtain ⟨fault, hfault, rfl⟩ := (TodoReader.todosAt_eq_error_iff hf).1 hpath
  exact .unreadable hrules hfind hread hfault

theorem forall₂_todosAt_iff {perFile : List (List Todo)} :
    List.Forall₂ (fun f found => reader.todosAt tree f.path = .ok found) files perFile ↔
      ∃ texts, List.Forall₂ (fun f text => tree.HoldsText f.path text) files texts ∧
        perFile = List.zipWith (fun f text => reader.todos f.path text.toList) files texts := by
  constructor
  · intro h
    induction h with
    | nil => exact ⟨[], .nil, rfl⟩
    | cons hfound _ ih =>
      obtain ⟨text, htext, rfl⟩ := TodoReader.todosAt_eq_ok_iff.1 hfound
      obtain ⟨texts, htexts, rfl⟩ := ih
      exact ⟨text :: texts, .cons htext htexts, rfl⟩
  · rintro ⟨texts, h, rfl⟩
    induction h with
    | nil => exact .nil
    | cons htext _ ih => exact .cons (TodoReader.todosAt_eq_ok_iff.2 ⟨_, htext, rfl⟩) ih

/-- A scan ends in one of the ways. -/
theorem scan_eq_iff_scans (hwf : tree.top.WellFormed) :
    scan tree root config = result ↔ Scans tree root config result := by
  constructor
  · rintro rfl
    cases hrules : TodoReader.ofRules config.rules with
    | error fault =>
      rw [scan_of_rules hrules]
      exact .rules hrules
    | ok reader =>
      cases hfind : tree.find root config.extensions with
      | error fault =>
        rw [scan_of_walk hrules hfind]
        exact .walk hrules hfind
      | ok files =>
        rw [scan_of_files hwf hrules hfind]
        cases hmap : (files.map FoundFile.path).mapM (reader.todosAt tree) with
        | error error => exact scans_of_mapM_error hwf hrules hfind hmap
        | ok perFile =>
          rw [Success.mapM_eq_ok_iff, List.forall₂_map_left_iff, forall₂_todosAt_iff] at hmap
          obtain ⟨texts, htexts, rfl⟩ := hmap
          exact .found hrules hfind htexts
  · intro h
    cases h with
    | rules hrules => exact scan_of_rules hrules
    | walk hrules hfind => exact scan_of_walk hrules hfind
    | @unreadable reader before after f fault hrules hfind hbefore hfault =>
      have hf : tree.IsFound f := isFound_of_find hwf hfind f (by simp)
      have hmap : ((before ++ f :: after).map FoundFile.path).mapM (reader.todosAt tree) =
          .error (.unreadableFile f.path fault) := by
        refine Success.mapM_eq_error_iff.2 ⟨before.map FoundFile.path, f.path,
          after.map FoundFile.path, by simp, ?_,
          (TodoReader.todosAt_eq_error_iff hf).2 ⟨fault, hfault, rfl⟩⟩
        intro path hpath
        obtain ⟨g, hg, rfl⟩ := List.mem_map.1 hpath
        obtain ⟨text, htext⟩ := hbefore g hg
        exact ⟨_, TodoReader.todosAt_eq_ok_iff.2 ⟨text, htext, rfl⟩⟩
      rw [scan_of_files hwf hrules hfind, hmap]
      rfl
    | @found reader files texts hrules hfind htexts =>
      have hmap : (files.map FoundFile.path).mapM (reader.todosAt tree) =
          .ok (List.zipWith (fun f text => reader.todos f.path text.toList) files texts) :=
        Success.mapM_eq_ok_iff.2
          (List.forall₂_map_left_iff.2 (forall₂_todosAt_iff.2 ⟨texts, htexts, rfl⟩))
      rw [scan_of_files hwf hrules hfind, hmap]
      rfl

/-! ## What does not matter -/

/-- Whether the walk goes wrong does not depend on what stands in the files. -/
theorem scan_walk_of_sameShape (hwf : tree.top.WellFormed) (hwf' : tree'.top.WellFormed)
    (h : tree.SameShape tree') {fault : WalkFault}
    (hscan : scan tree root config = .error (.walk fault)) :
    scan tree' root config = .error (.walk fault) := by
  rw [scan_eq_iff_scans hwf] at hscan
  cases hscan with
  | walk hrules hfind => exact scan_of_walk hrules (h.find_error hwf hwf' hfind)

/-- A scan depends on the source files only, whatever stands in other files. -/
theorem scan_eq_of_sameShape (hwf : tree.top.WellFormed) (hwf' : tree'.top.WellFormed)
    (h : tree.SameShape tree')
    (hread : ∀ f, tree.Visits root f.path → tree.IsFound f →
      (∃ ext ∈ config.extensions, ext.toList <:+ f.name.toList) →
      tree'.readText f.path = tree.readText f.path) :
    scan tree' root config = scan tree root config := by
  cases hrules : TodoReader.ofRules config.rules with
  | error fault => rw [scan_of_rules hrules, scan_of_rules hrules]
  | ok reader =>
    cases hfind : tree.find root config.extensions with
    | error fault =>
      rw [scan_of_walk hrules hfind, scan_of_walk hrules (h.find_error hwf hwf' hfind)]
    | ok files =>
      obtain ⟨files', hfind', hpaths⟩ := h.find_ok hwf hwf' hfind
      have htodos : ∀ path ∈ files.map FoundFile.path,
          reader.todosAt tree' path = reader.todosAt tree path := by
        intro path hpath
        obtain ⟨f, hf, rfl⟩ := List.mem_map.1 hpath
        obtain ⟨hvisits, hfound, hname⟩ := (mem_iff_of_find hwf hfind).1 hf
        rw [TodoReader.todosAt, TodoReader.todosAt, hread f hvisits hfound hname]
      rw [scan_of_files hwf hrules hfind, scan_of_files hwf' hrules hfind', hpaths,
        Success.mapM_congr htodos]

/-! ## Reports -/

/-- Scans and reports, and appends the lines of the report to a log. -/
def auditTo (tree : FileTree) (root : String) (config : Config) (mode : ReportMode) :
    ExceptT AuditError (StateM (List String)) Outcome := do
  let report ← ExceptT.mk (pure (audit tree root config mode))
  modify fun log => log ++ mode.lines report
  return report.outcome

theorem audit_of_scan_error {error : AuditError} (h : scan tree root config = .error error)
    (mode : ReportMode) : audit tree root config mode = .error error := by
  rw [audit, h]
  rfl

theorem auditTo_of_scan_error {error : AuditError} (h : scan tree root config = .error error)
    (mode : ReportMode) (log : List String) :
    (auditTo tree root config mode).run.run log = (.error error, log) := by
  rw [auditTo, audit_of_scan_error h]
  rfl

/-- A run shows the error of its scan, and nothing on the output. -/
theorem run_of_scan_error {error : AuditError} {request : CommandLine.Request}
    (hconfig : request.config tree = .ok config)
    (h : scan tree request.root config = .error error) (today : Date) (colors : Bool) :
    request.run tree today colors =
      ⟨2, "", CommandLine.asLine (Terminal.paint colors .red error.message)⟩ := by
  have hattempt : (do audit tree request.root (← request.config tree) (request.mode today)) =
      Except.error error := by
    rw [hconfig]
    exact audit_of_scan_error h _
  rw [CommandLine.Request.run, hattempt]

/-- A scan is carried out in phases and has no partial result: the rules, the walk and the source
files go wrong in this order. If the walk goes wrong, it does so whatever stands in the files and
whether or not they can be read, and files that are no source files have no influence. When a scan
fails, so does the audit, no line comes into the log, and the program shows the error only. -/
theorem scan_in_phases (hwf : tree.top.WellFormed) (root : String) (config : Config) :
    (∀ result, scan tree root config = result ↔ Scans tree root config result) ∧
      (∀ tree' : FileTree, tree'.top.WellFormed → tree.SameShape tree' →
        (∀ fault, scan tree root config = .error (.walk fault) →
          scan tree' root config = .error (.walk fault)) ∧
        ((∀ f, tree.Visits root f.path → tree.IsFound f →
            (∃ ext ∈ config.extensions, ext.toList <:+ f.name.toList) →
            tree'.readText f.path = tree.readText f.path) →
          scan tree' root config = scan tree root config)) ∧
      ∀ error, scan tree root config = .error error →
        (∀ mode log, audit tree root config mode = .error error ∧
          (auditTo tree root config mode).run.run log = (.error error, log)) ∧
        ∀ (request : CommandLine.Request) (today : Date) (colors : Bool),
          request.root = root → request.config tree = .ok config →
          request.run tree today colors =
            ⟨2, "", CommandLine.asLine (Terminal.paint colors .red error.message)⟩ := by
  refine ⟨fun result => scan_eq_iff_scans hwf, ?_, ?_⟩
  · intro tree' hwf' h
    exact ⟨fun fault => scan_walk_of_sameShape hwf hwf' h, scan_eq_of_sameShape hwf hwf' h⟩
  · intro error h
    refine ⟨fun mode log => ⟨audit_of_scan_error h mode, auditTo_of_scan_error h mode log⟩, ?_⟩
    rintro request today colors rfl hconfig
    exact run_of_scan_error hconfig h today colors

/-- Of two source files that cannot be read as text, the one found first makes the scan fail, and a
file that is no source file need not be readable. -/
theorem scan_in_phases_twoUnreadable :
    (auditTo ⟨.directory [("notes.txt", .unreadable .permissionDenied),
        ("B.java", .unreadable .permissionDenied), ("A.java", .file ⟨#[0xff]⟩)], []⟩
          "." {} .verify).run.run ["before"] =
      (.error (.unreadableFile "./B.java" .permissionDenied), ["before"]) := by
  have hwf : (FileTree.mk (.directory [("notes.txt", .unreadable .permissionDenied),
      ("B.java", .unreadable .permissionDenied),
      ("A.java", .file ⟨#[0xff]⟩)]) []).top.WellFormed := by
    refine .directory (by decide) (by decide) ?_
    rintro e (_ | ⟨_, _ | ⟨_, _ | ⟨_, ⟨⟩⟩⟩⟩) <;> exact .regular
  obtain ⟨-, -, herror⟩ := scan_in_phases hwf "." {}
  have hscan := herror (.unreadableFile "./B.java" .permissionDenied) (by cbv)
  exact (hscan.1 .verify ["before"]).2

end TodoAudit
