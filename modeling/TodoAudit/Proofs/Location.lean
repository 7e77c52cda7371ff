import TodoAudit.Proofs.Comment.Greedy
import TodoAudit.Proofs.Report.Permuted
import TodoAudit.Proofs.Scanning
import TodoAudit.Proofs.SourceTree.Search
import TodoAudit.Proofs.Text.Numeral
import TodoAudit.Proofs.Text.Places

/-!
# Where todos stand

No two todos of a scan stand at the same location (`nodup_location`), so that a location in a report
designates one comment. Three things are told apart: the path, the line and the column in a written
location (`Todo.location_inj`), which is read from its end because a path can hold colons and digits
itself; the places of a text by their lines and columns (`Position.after_inj`); and the source files
by their paths.
-/

namespace TodoAudit

open Text

/-! ## Lines and columns -/

namespace Text

variable {a b c d x : List Char}

theorem Position.eq_iff {p q : Position} : p = q ↔ p.line = q.line ∧ p.column = q.column := by
  constructor
  · rintro rfl
    exact ⟨rfl, rfl⟩
  · cases p
    cases q
    rintro ⟨rfl, rfl⟩
    rfl

/-- Going on in a text changes the line or the column. -/
theorem Position.eq_nil_of_after_append (h : Position.after (a ++ x) = Position.after a) :
    x = [] := by
  by_contra hx
  exact (Position.precedes_after_append a hx).ne h.symm

/-- Line and column determine how much of a text is before them. -/
theorem Position.after_inj (h : a ++ b = c ++ d) (hpos : Position.after a = Position.after c) :
    a = c := by
  rcases List.append_eq_append_iff.1 h with ⟨x, rfl, -⟩ | ⟨x, rfl, -⟩
  · rw [Position.eq_nil_of_after_append hpos.symm, List.append_nil]
  · rw [Position.eq_nil_of_after_append hpos, List.append_nil]

theorem eq_nil_of_append_cons {y : Char} (hb : y ∉ b) (h : y :: b = x ++ y :: d) : x = [] := by
  cases x with
  | nil => rfl
  | cons z x =>
    rw [(List.cons.inj h).2] at hb
    simp at hb

/-- A text can be cut at its last occurrence of a character in one way only. -/
theorem append_cons_inj {y : Char} (hb : y ∉ b) (hd : y ∉ d) (h : a ++ y :: b = c ++ y :: d) :
    a = c ∧ b = d := by
  have hac : a = c := by
    rcases List.append_eq_append_iff.1 h with ⟨x, rfl, hx⟩ | ⟨x, rfl, hx⟩
    · rw [eq_nil_of_append_cons hb hx, List.append_nil]
    · rw [eq_nil_of_append_cons hd hx, List.append_nil]
  subst hac
  exact ⟨rfl, (List.cons.inj (List.append_cancel_left h)).2⟩

end Text

/-! ## Written locations -/

namespace Todo

variable {t u : Todo}

theorem toList_location (t : Todo) : t.location.toList =
    (t.filePath.toList ++ ':' :: Decimal.digits t.line) ++ ':' :: Decimal.digits t.column := by
  simp [location, Decimal.digits, Nat.toString_eq_repr]

theorem digits_injective : Function.Injective Decimal.digits :=
  Function.LeftInverse.injective Decimal.value_digits

/-- A written location tells path, line and column apart, whatever the path is. -/
theorem location_inj :
    t.location = u.location ↔ t.filePath = u.filePath ∧ t.line = u.line ∧ t.column = u.column := by
  constructor
  · intro h
    have hlist := congrArg String.toList h
    rw [toList_location, toList_location] at hlist
    have hcolon : ∀ n, ':' ∉ Decimal.digits n := Decimal.notMem_digits (by decide)
    obtain ⟨hfront, hcolumn⟩ := append_cons_inj (hcolon _) (hcolon _) hlist
    obtain ⟨hpath, hline⟩ := append_cons_inj (hcolon _) (hcolon _) hfront
    exact ⟨String.toList_injective hpath, digits_injective hline, digits_injective hcolumn⟩
  · rintro ⟨hpath, hline, hcolumn⟩
    rw [location, location, hpath, hline, hcolumn]

end Todo

/-! ## Comments of one text -/

variable {s : SourceText} {sources : List SourceText} {files : List FoundFile} {c c' : Comment}
  {r : TodoReader}

theorem Comment.offset_eq_of_position_eq {text : List Char} (hc : c ∈ Comment.scan text)
    (hc' : c' ∈ Comment.scan text)
    (h : Position.ofOffset text c.offset = Position.ofOffset text c'.offset) :
    c.offset = c'.offset := by
  obtain ⟨front, back, htext, hoffset⟩ := Comment.split_of_mem_scan hc
  obtain ⟨front', back', htext', hoffset'⟩ := Comment.split_of_mem_scan hc'
  rw [List.append_assoc] at htext htext'
  have hpos : Position.after front = Position.after front' := by
    have hfront := Position.ofOffset_byteSize front (c.text ++ back)
    have hfront' := Position.ofOffset_byteSize front' (c'.text ++ back')
    rw [← htext, ← hoffset] at hfront
    rw [← htext', ← hoffset'] at hfront'
    rw [← hfront, ← hfront', h]
  rw [hoffset, hoffset', Position.after_inj (htext.symm.trans htext') hpos]

/-- The comments of a text have different lines or columns. -/
theorem Comment.nodup_position (text : List Char) :
    ((Comment.todos text).map fun c => Position.ofOffset text c.offset).Nodup := by
  rw [List.nodup_iff_pairwise_ne, List.pairwise_map]
  refine (Comment.pairwise_todos text).imp_of_mem ?_
  intro c c' hc hc' hlt heq
  have hoffset := Comment.offset_eq_of_position_eq (List.mem_of_mem_filter hc)
    (List.mem_of_mem_filter hc') heq
  exact absurd hlt.2 (by omega)

/-! ## Comments of all texts -/

theorem location_record_eq_iff {t u : TodoComment} :
    (r.record t).location = (r.record u).location ↔ t.source.path = u.source.path ∧
      Position.ofOffset t.source.text.toList t.comment.offset =
        Position.ofOffset u.source.text.toList u.comment.offset := by
  rw [Todo.location_inj, Position.eq_iff]
  rfl

/-- The source texts have the paths of the files. -/
theorem map_path_of_isTextOf (h : List.Forall₂ (fun f s => SourceText.IsTextOf s f) files sources) :
    sources.map SourceText.path = files.map FoundFile.path := by
  induction h with
  | nil => rfl
  | cons hs _ ih => rw [List.map_cons, List.map_cons, ih, hs.1]

/-- If the source texts have different paths, the todo comments have different locations. -/
theorem nodup_location_record (h : (sources.map SourceText.path).Nodup) :
    ((todoComments sources).map fun t => (r.record t).location).Nodup := by
  rw [List.nodup_iff_pairwise_ne, List.pairwise_map, todoComments, List.pairwise_flatMap]
  constructor
  · intro s _
    rw [List.pairwise_map]
    refine (List.pairwise_map.1 (Comment.nodup_position s.text.toList)).imp ?_
    intro c c' hne heq
    exact hne (location_record_eq_iff.1 heq).2
  · refine (List.pairwise_map.1 h).imp ?_
    intro s s' hne t ht u hu heq
    obtain ⟨c, -, rfl⟩ := List.mem_map.1 ht
    obtain ⟨c', -, rfl⟩ := List.mem_map.1 hu
    exact hne (location_record_eq_iff.1 heq).1

/-! ## Scans -/

variable {tree : FileTree} {root : String} {config : Config} {todos : List Todo}

theorem ReportMode.reported_subset (mode : ReportMode) (todos : List Todo) :
    (mode.reportOn todos).reported ⊆ todos := by
  intro t ht
  cases mode with
  | list m => exact List.mem_of_mem_filter (ListMode.mem_of_mem_listed ht)
  | verify => exact List.mem_of_mem_filter ht

/-- No two todos of a scan have the same location. Within a text, lines and columns tell the
comments apart, the source texts have different paths, and a written location tells path, line and
column apart. So the location of a todo in any report designates exactly one todo comment. -/
theorem nodup_location (hwf : tree.top.WellFormed) (h : scan tree root config = .ok todos) :
    (todos.map Todo.location).Nodup ∧
      (∀ t u : Todo, t.location = u.location ↔
        t.filePath = u.filePath ∧ t.line = u.line ∧ t.column = u.column) ∧
      ∃ reader files sources,
        TodoReader.ofRules config.rules = .ok reader ∧
        tree.find root config.extensions = .ok files ∧
        List.Forall₂ (fun f s => SourceText.IsTextOf s f) files sources ∧
        todos = (todoComments sources).map reader.record ∧
        (sources.map SourceText.path).Nodup ∧
        (∀ s ∈ sources, ((Comment.todos s.text.toList).map fun c =>
          Position.ofOffset s.text.toList c.offset).Nodup) ∧
        ∀ mode : ReportMode, ∀ t ∈ (mode.reportOn todos).reported,
          ∃! comment, comment ∈ todoComments sources ∧
            (reader.record comment).location = t.location := by
  obtain ⟨reader, files, sources, hreader, hfiles, hsources, rfl⟩ := scan_eq_ok_iff.1 h
  have hpaths : (sources.map SourceText.path).Nodup := by
    rw [map_path_of_isTextOf hsources]
    exact FileTree.nodup_of_find hwf hfiles
  have hnodup := nodup_location_record (r := reader) hpaths
  refine ⟨by rwa [List.map_map], fun t u => Todo.location_inj, reader, files, sources, hreader,
    hfiles, hsources, rfl, hpaths, fun s _ => Comment.nodup_position s.text.toList, ?_⟩
  intro mode t ht
  obtain ⟨comment, hcomment, rfl⟩ := List.mem_map.1 (mode.reported_subset _ ht)
  refine ⟨comment, ⟨hcomment, rfl⟩, ?_⟩
  rintro other ⟨hother, heq⟩
  exact List.inj_on_of_nodup_map hnodup hother hcomment heq

/-- Two files, of which one has a name that begins like a location in the other. -/
theorem nodup_location_misleadingName :
    ((FileTree.mk (.directory [("A.java", .file "/* TODO é */ // TODO".toUTF8),
        ("A.java:1:14.java", .file "// TODO".toUTF8)]) []).top.WellFormed ∧
      scan ⟨.directory [("A.java", .file "/* TODO é */ // TODO".toUTF8),
        ("A.java:1:14.java", .file "// TODO".toUTF8)], []⟩ "." ⟨{}, [".java"]⟩ =
          .ok [⟨"unassigned", none, "./A.java", 1, 1⟩, ⟨"unassigned", none, "./A.java", 1, 14⟩,
            ⟨"unassigned", none, "./A.java:1:14.java", 1, 1⟩]) ∧
      ["./A.java:1:1", "./A.java:1:14", "./A.java:1:14.java:1:1"].Nodup := by
  have hwf : (FileTree.mk (.directory [("A.java", .file "/* TODO é */ // TODO".toUTF8),
      ("A.java:1:14.java", .file "// TODO".toUTF8)]) []).top.WellFormed := by
    refine .directory (by decide) (by decide) ?_
    rintro e (_ | ⟨_, _ | ⟨_, ⟨⟩⟩⟩) <;> exact .regular
  have hscan : scan ⟨.directory [("A.java", .file "/* TODO é */ // TODO".toUTF8),
      ("A.java:1:14.java", .file "// TODO".toUTF8)], []⟩ "." ⟨{}, [".java"]⟩ =
      .ok [⟨"unassigned", none, "./A.java", 1, 1⟩, ⟨"unassigned", none, "./A.java", 1, 14⟩,
        ⟨"unassigned", none, "./A.java:1:14.java", 1, 1⟩] := by cbv
  exact ⟨⟨hwf, hscan⟩, (nodup_location hwf hscan).1⟩

end TodoAudit
