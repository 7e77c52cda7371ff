import TodoAudit.Proofs.Bytes.Dates
import TodoAudit.Proofs.Comment.Greedy
import TodoAudit.Proofs.Text.Lines
import TodoAudit.Todo.Reader

/-!
# Todos by byte offsets

The todos of a text are read here with offsets: the search for comments goes on at an offset, a
mention and a due date are looked for at offsets in the comment, and the line and the column are
counted at the offset of the comment. Each time the text is cut, and each cut could fail. The main
statement is `TodoReader.todosByOffset_eq`: whatever the text and the rules are, no cut fails, and
the todos are those that the library reads. For the search it comes from what one round does
(`round_spec`), by induction over the rounds (`todosFrom_append`).
-/

namespace TodoAudit

open Text

/-! ## Comments begin with a slash -/

namespace Comment

variable {front back : List Char} {x : Char}

theorem exists_any_eq_error (h : x ≠ '/') (s : List Char) : ∃ r, any (x :: s) = .error r := by
  rw [any_eq_error_iff, block_eq_error_iff, line_eq_error_iff]
  constructor
  · intro inside hs
    exact absurd (List.cons.inj hs).1 h
  · intro inside hs
    exact absurd (List.cons.inj hs).1 h

/-- A scan passes over what has no slash in it. -/
theorem scanFrom_append_of_noSlash (h : '/' ∉ front) (offset : Nat) (back : List Char) :
    scanFrom offset (front ++ back) = scanFrom (offset + byteSize front) back := by
  induction front generalizing offset with
  | nil => rfl
  | cons x front ih =>
    rw [List.mem_cons, not_or] at h
    obtain ⟨r, hr⟩ := exists_any_eq_error (Ne.symm h.1) (front ++ back)
    rw [List.cons_append, scanFrom_cons_of_not_any hr, ih h.2, byteSize_cons, Nat.add_assoc]

end Comment

namespace Bytes

open Comment

variable {text comment before skipped tail rest later : List Char} {found : List Comment}
  {offset next : Nat}

/-! ## The search for todo comments -/

/-- One round of the search: the todo comment that it finds, if any, and where to go on. There is
nothing more to find if there is no slash from the offset on. -/
def round (text : List Char) (offset : Nat) : Except Fault (Option (List Comment × Nat)) := do
  match find? ['/'] (← cutFrom text offset) with
  | none => return none
  | some slash =>
    let start := offset + slash
    match Comment.any (← cutFrom text start) with
    | .ok (comment, rest) =>
      let next ← minus (byteSize text) (byteSize rest)
      return some ([⟨start, comment⟩].filter isTodo, next)
    | .error _ => return some ([], start + 1)

theorem round_of_noSlash (before : List Char) (h : '/' ∉ rest) :
    round (before ++ rest) (byteSize before) = .ok none := by
  refine Success.bind_eq_ok_iff.2 ⟨rest, cutFrom_append before rest, ?_⟩
  rw [find?_of_notMem h]
  rfl

theorem cutFrom_slash (before skipped tail : List Char) :
    cutFrom (before ++ (skipped ++ '/' :: tail)) (byteSize before + byteSize skipped) =
      .ok ('/' :: tail) := by
  rw [← List.append_assoc, ← byteSize_append, cutFrom_append]

theorem round_of_any (before : List Char) (hslash : '/' ∉ skipped)
    (h : Comment.any ('/' :: tail) = .ok (comment, later)) :
    round (before ++ (skipped ++ '/' :: tail)) (byteSize before) =
      .ok (some ([⟨byteSize before + byteSize skipped, comment⟩].filter isTodo,
        byteSize (before ++ (skipped ++ comment)))) := by
  have hnext := minus_byteSize_append (before ++ (skipped ++ comment)) later
  rw [List.append_assoc, List.append_assoc, ← (eq_append_of_any h).1] at hnext
  refine Success.bind_eq_ok_iff.2 ⟨_, cutFrom_append before _, ?_⟩
  rw [find?_append_cons tail hslash]
  refine Success.bind_eq_ok_iff.2 ⟨_, cutFrom_slash before skipped tail, ?_⟩
  rw [h]
  exact Success.bind_eq_ok_iff.2 ⟨_, hnext, rfl⟩

theorem round_of_not_any {refusal : Refusal} (before : List Char) (hslash : '/' ∉ skipped)
    (h : Comment.any ('/' :: tail) = .error refusal) :
    round (before ++ (skipped ++ '/' :: tail)) (byteSize before) =
      .ok (some ([], byteSize before + byteSize skipped + 1)) := by
  refine Success.bind_eq_ok_iff.2 ⟨_, cutFrom_append before _, ?_⟩
  rw [find?_append_cons tail hslash]
  refine Success.bind_eq_ok_iff.2 ⟨_, cutFrom_slash before skipped tail, ?_⟩
  rw [h]
  rfl

/-- A round at the end of some text finds nothing where the scan finds nothing. Else it eats some of
the rest, and the scan finds what the round has found and then what comes behind it. -/
theorem round_spec (before rest : List Char) :
    (round (before ++ rest) (byteSize before) = .ok none ∧ scanFrom (byteSize before) rest = []) ∨
    ∃ eaten later found, rest = eaten ++ later ∧ eaten ≠ [] ∧
      round (before ++ rest) (byteSize before) = .ok (some (found, byteSize (before ++ eaten))) ∧
      (scanFrom (byteSize before) rest).filter isTodo =
        found ++ (scanFrom (byteSize (before ++ eaten)) later).filter isTodo := by
  by_cases hmem : '/' ∈ rest
  · obtain ⟨skipped, tail, rfl, hslash⟩ := List.eq_append_cons_of_mem hmem
    rw [scanFrom_append_of_noSlash hslash]
    right
    cases hany : Comment.any ('/' :: tail) with
    | ok eaten =>
      obtain ⟨comment, later⟩ := eaten
      obtain ⟨hcomment, hne⟩ := eq_append_of_any hany
      refine ⟨skipped ++ comment, later, _, ?_, ?_, round_of_any before hslash hany, ?_⟩
      · rw [hcomment, List.append_assoc]
      · simp [hne]
      · rw [scanFrom_of_any hany, byteSize_append, byteSize_append, ← Nat.add_assoc,
          ← List.filter_append, List.singleton_append]
    | error refusal =>
      -- the slash is a single byte, so the search goes on behind it
      have hnext : byteSize before + byteSize skipped + 1 =
          byteSize (before ++ (skipped ++ ['/'])) := by
        rw [byteSize_append, byteSize_append, ← Nat.add_assoc]
        rfl
      have hround := round_of_not_any before hslash hany
      rw [hnext] at hround
      refine ⟨skipped ++ ['/'], tail, [], ?_, ?_, hround, ?_⟩
      · rw [List.append_assoc, List.singleton_append]
      · simp
      · rw [scanFrom_cons_of_not_any hany, ← hnext]
        rfl
  · have hscan := scanFrom_append_of_noSlash hmem (byteSize before) []
    rw [List.append_nil, scanFrom_nil] at hscan
    exact Or.inl ⟨round_of_noSlash before hmem, hscan⟩

/-- Every round goes on in the text. -/
theorem lt_of_round (h : round text offset = .ok (some (found, next))) :
    offset < next ∧ next ≤ byteSize text := by
  obtain ⟨rest, hrest, -⟩ := Success.bind_eq_ok_iff.1 h
  obtain ⟨before, rfl, rfl⟩ := exists_of_cutFrom hrest
  rcases round_spec before rest with ⟨hnone, -⟩ | ⟨eaten, later, found', rfl, hne, hround, -⟩
  · cases h.symm.trans hnone
  · cases h.symm.trans hround
    have hpos : byteSize eaten ≠ 0 := fun hzero => hne (byteSize_eq_zero_iff.1 hzero)
    simp only [byteSize_append]
    omega

/-- The todo comments that begin at the offset or behind it. -/
def todosFrom (text : List Char) (offset : Nat) : Except Fault (List Comment) :=
  match _h : round text offset with
  | .error fault => .error fault
  | .ok none => .ok []
  | .ok (some (found, next)) => do return found ++ (← todosFrom text next)
termination_by byteSize text - offset
decreasing_by
  have := lt_of_round _h
  omega

theorem todosFrom_of_none (h : round text offset = .ok none) : todosFrom text offset = .ok [] := by
  rw [todosFrom]
  split
  · rename_i h'
    cases h.symm.trans h'
  · rfl
  · rename_i h'
    cases h.symm.trans h'

theorem todosFrom_of_some (h : round text offset = .ok (some (found, next))) :
    todosFrom text offset = do return found ++ (← todosFrom text next) := by
  rw [todosFrom]
  split
  · rename_i h'
    cases h.symm.trans h'
  · rename_i h'
    cases h.symm.trans h'
  · rename_i h'
    cases h.symm.trans h'
    rfl

/-- No round fails, and the rounds from the end of some text on find what the scan finds there. -/
theorem todosFrom_append (before rest : List Char) : todosFrom (before ++ rest) (byteSize before) =
    .ok ((scanFrom (byteSize before) rest).filter isTodo) := by
  -- on the length of the rest, of which every round eats some
  induction hn : rest.length using Nat.strong_induction_on generalizing before rest with
  | _ n ih =>
    subst hn
    rcases round_spec before rest with ⟨hround, hscan⟩ |
      ⟨eaten, later, found, hrest, hne, hround, hscan⟩
    · rw [todosFrom_of_none hround, hscan]
      rfl
    · have hlater : later.length < rest.length := by
        have hpos := List.length_pos_iff.2 hne
        rw [hrest, List.length_append]
        omega
      have hgo := ih later.length hlater (before ++ eaten) later rfl
      rw [List.append_assoc, ← hrest] at hgo
      rw [todosFrom_of_some hround, hgo, hscan]
      rfl

theorem todosFrom_zero (text : List Char) : todosFrom text 0 = .ok (Comment.todos text) :=
  todosFrom_append [] text

/-! ## The assignee -/

/-- The name in the mention at an offset of the comment, if there is a mention. -/
def nameAt? (symbol comment : List Char) (start : Nat) : Except Fault (Option (List Char)) := do
  match mention symbol (← cutFrom comment start) with
  | .ok (name, _) => return some name
  | .error _ => return none

/-- The name in the first mention of the comment. A mention is looked for where the first character
of the symbol occurs. -/
def assigneeByOffset (symbol comment : List Char) : Except Fault (Option (List Char)) :=
  match symbol with
  | [] => .ok none
  | first :: _ => (offsetsFrom first 0 comment).findSomeM? (nameAt? symbol comment)

theorem findSomeM?_nameAt? (first : Char) (symbol before rest : List Char) :
    (offsetsFrom first (byteSize before) rest).findSomeM?
      (nameAt? (first :: symbol) (before ++ rest)) = .ok (assignee? (first :: symbol) rest) := by
  induction rest generalizing before with
  | nil => rfl
  | cons c rest ih =>
    have htail := ih (before ++ [c])
    rw [byteSize_append, List.append_assoc, List.singleton_append] at htail
    rw [offsetsFrom, assignee?, if_neg (List.cons_ne_nil _ _)]
    by_cases hc : c = first
    · have hname : nameAt? (first :: symbol) (before ++ c :: rest) (byteSize before) = do
          match mention (first :: symbol) (c :: rest) with
          | .ok (name, _) => return some name
          | .error _ => return none := by
        rw [nameAt?, cutFrom_append]
        rfl
      rw [if_pos hc, List.singleton_append, List.findSomeM?, hname]
      cases mention (first :: symbol) (c :: rest) with
      | ok eaten => rfl
      | error refusal => exact htail
    · have hrefuse : mention (first :: symbol) (c :: rest) = refuse .mark (c :: rest) := by
        rw [mention, strip?, if_neg (Ne.symm hc)]
      rw [if_neg hc, hrefuse]
      exact htail

theorem assigneeByOffset_eq (symbol comment : List Char) :
    assigneeByOffset symbol comment = .ok (assignee? symbol comment) := by
  cases symbol with
  | nil => cases comment <;> rfl
  | cons first symbol => exact findSomeM?_nameAt? first symbol [] comment

/-! ## The due date -/

/-- The first of the phrases that occurs in the comment, with the offset of its first occurrence. -/
def announcementAt? (phrases : List (List Char)) (comment : List Char) :
    Option (List Char × Nat) :=
  phrases.findSome? fun phrase => (find? phrase comment).map fun start => (phrase, start)

/-- Reads the due date of a comment. -/
def dueDateByOffset (phrases : List (List Char)) (format : DateFormat) (comment : List Char) :
    Except Fault DueDate := do
  match announcementAt? phrases comment with
  | none => return .missing
  | some (phrase, start) =>
    let after ← cutFrom comment (start + byteSize phrase)
    let window ← cutTo after ((offsetOfNth? format.window after).getD (byteSize after))
    match ← readInWords format (trim window) with
    | some d => return .date d
    | none => return .unreadable phrase (trim window)

theorem announcementAt?_spec (phrases : List (List Char)) (comment : List Char) :
    (announcementAt? phrases comment = none ∧ DueDate.announcement? phrases comment = none) ∨
    ∃ before phrase after, comment = before ++ phrase ++ after ∧
      announcementAt? phrases comment = some (phrase, byteSize before) ∧
      DueDate.announcement? phrases comment = some (phrase, after) := by
  induction phrases with
  | nil => exact Or.inl ⟨rfl, rfl⟩
  | cons phrase phrases ih =>
    rw [announcementAt?, DueDate.announcement?, List.findSome?_cons, List.findSome?_cons, find?]
    cases hcut : cutAt? phrase comment with
    | none => exact ih
    | some parts =>
      exact Or.inr ⟨parts.1, phrase, parts.2, eq_append_of_cutAt?_eq_some hcut, rfl, rfl⟩

theorem dueDateByOffset_eq (phrases : List (List Char)) (format : DateFormat)
    (comment : List Char) :
    dueDateByOffset phrases format comment = .ok (DueDate.ofComment phrases format comment) := by
  rw [dueDateByOffset, DueDate.ofComment]
  rcases announcementAt?_spec phrases comment with ⟨hat, hann⟩ |
    ⟨before, phrase, after, hcomment, hat, hann⟩
  · rw [hat, hann]
    rfl
  · have hafter : cutFrom comment (byteSize before + byteSize phrase) = .ok after := by
      rw [hcomment, ← byteSize_append, cutFrom_append]
    rw [hat, hann]
    refine Success.bind_eq_ok_iff.2 ⟨after, hafter, ?_⟩
    refine Success.bind_eq_ok_iff.2 ⟨_, cutTo_offsetOfNth? format.window after, ?_⟩
    refine Success.bind_eq_ok_iff.2 ⟨_, readInWords_eq format _, ?_⟩
    cases hread : format.read? (trim (after.take format.window)) <;> simp [hread] <;> rfl

/-! ## Lines and columns -/

/-- The position of a byte offset. The column is counted from behind the last line break. -/
def positionByOffset (text : List Char) (offset : Nat) : Except Fault Position := do
  let before ← cutTo text offset
  let lineStart := ((lastOffset? '\n' before).map (· + 1)).getD 0
  return ⟨before.count '\n' + 1, (← cutFrom before lineStart).length + 1⟩

/-- Behind the last line break is the last line. -/
theorem cutFrom_lineStart (s : List Char) :
    ∃ line, cutFrom s (((lastOffset? '\n' s).map (· + 1)).getD 0) = .ok line ∧
      line.length = (s.reverse.takeWhile (· ≠ '\n')).length := by
  by_cases hbreak : '\n' ∈ s
  · obtain ⟨front, line, rfl, hline⟩ := eq_append_cons_of_mem_last hbreak
    have hfront : IsLines (front ++ ['\n']) := by simp [IsLines]
    refine ⟨line, ?_, ?_⟩
    · -- a line break is a single byte, so the line begins right behind it
      have hcut := cutFrom_append (front ++ ['\n']) line
      rw [List.append_assoc, byteSize_append] at hcut
      rw [lastOffset?_append_cons _ hline]
      exact hcut
    · rw [List.append_cons, length_lastLine_append _ hline, hfront.takeWhile_reverse,
        List.length_nil, Nat.zero_add]
  · refine ⟨s, ?_, ?_⟩
    · rw [lastOffset?_of_notMem hbreak]
      exact cutFrom_append [] s
    · exact ((length_lastLine_append [] hbreak).trans (Nat.zero_add _)).symm

theorem positionByOffset_append (before rest : List Char) :
    positionByOffset (before ++ rest) (byteSize before) =
      .ok (Position.ofOffset (before ++ rest) (byteSize before)) := by
  obtain ⟨line, hcut, hlength⟩ := cutFrom_lineStart before
  refine Success.bind_eq_ok_iff.2 ⟨before, cutTo_append before rest, ?_⟩
  refine Success.bind_eq_ok_iff.2 ⟨line, hcut, ?_⟩
  rw [Position.ofOffset_byteSize, Position.after, hlength]
  rfl

end Bytes

/-! ## Todos -/

namespace TodoReader

open Bytes

/-- The todo of one comment in the text of a file, by byte offsets. -/
def todoByOffset (r : TodoReader) (file : String) (text : List Char) (c : Comment) :
    Except Fault Todo := do
  let place ← positionByOffset text c.offset
  let due ← dueDateByOffset r.phrases r.format c.text
  let name ← assigneeByOffset r.symbol c.text
  return {
    assignee := (name.map String.ofList).getD Todo.unassigned
    dueDate := due.toDate?
    filePath := file
    line := place.line
    column := place.column }

/-- The todos of a file, by byte offsets. -/
def todosByOffset (r : TodoReader) (file : String) (text : List Char) :
    Except Fault (List Todo) := do
  (← todosFrom text 0).mapM (r.todoByOffset file text)

theorem todoByOffset_eq (r : TodoReader) (file : String) {text : List Char} {c : Comment}
    (h : c ∈ Comment.scan text) : r.todoByOffset file text c = .ok (r.todo file text c) := by
  obtain ⟨front, back, hs, hoffset⟩ := Comment.split_of_mem_scan h
  have hplace : positionByOffset text c.offset = .ok (Position.ofOffset text c.offset) := by
    rw [hs, hoffset, List.append_assoc]
    exact positionByOffset_append front (c.text ++ back)
  refine Success.bind_eq_ok_iff.2 ⟨_, hplace, ?_⟩
  refine Success.bind_eq_ok_iff.2 ⟨_, dueDateByOffset_eq r.phrases r.format c.text, ?_⟩
  refine Success.bind_eq_ok_iff.2 ⟨_, assigneeByOffset_eq r.symbol c.text, ?_⟩
  rw [todo, assignee]
  cases assignee? r.symbol c.text <;> rfl

/-- Reading the todos of a text never fails, whatever the text and the rules are, and gives the
todos of the library. Every offset at which the text or a comment is cut is in range and on a
character boundary: where the search for comments goes on, where a mention could begin, where the
due phrase and the window behind it end, where the comment and its line begin. Every number in a
date fits into the word in which it is read, in which it is handed over, and in which the calendar
computes with it. -/
theorem todosByOffset_eq (r : TodoReader) (file text : String) :
    r.todosByOffset file text.toList = .ok (r.todos file text.toList) := by
  refine Success.bind_eq_ok_iff.2 ⟨_, todosFrom_zero text.toList, ?_⟩
  rw [Success.mapM_eq_ok_iff, todos, List.forall₂_map_right_iff, List.forall₂_same]
  intro c hc
  exact todoByOffset_eq r file (List.mem_of_mem_filter hc)

end TodoReader

end TodoAudit
