import TodoAudit.Proofs.Bytes.Todos
import TodoAudit.Proofs.DueDate.Announcement
import TodoAudit.Proofs.Text.LineEnds

/-!
# Line ends do not matter

With a carriage return before every line break a text has the same todos at the same lines and
columns (`TodoReader.todos_withReturns`). The comments are no longer the same: block comments have
carriage returns in them, and a line comment that ends with its line now ends with one. `Returned`
says which comment of the one text is which of the other. The two scans go along together, one step
of the one for one or two steps of the other (`forall₂_scanFrom_withReturns`). That a line comment
has a carriage return at its end matters for no assignee and no due date: it is no word character,
and it is a blank, which is trimmed if it is in the window at all.
-/

namespace TodoAudit

open Text

/-! ## Mentions -/

section Mentions

variable {symbol : List Char} {c : Char}

/-- The name in the mention at the beginning of a text. -/
def named? (symbol s : List Char) : Option (List Char) :=
  (strip? symbol s).bind fun rest =>
    if (rest.takeWhile isWord).isEmpty then none else some (rest.takeWhile isWord)

theorem assignee?_cons (h : symbol ≠ []) (c : Char) (s : List Char) :
    assignee? symbol (c :: s) = (named? symbol (c :: s)).or (assignee? symbol s) := by
  rw [assignee?, if_neg h, mention, named?]
  cases strip? symbol (c :: s) with
  | none => rfl
  | some rest =>
    dsimp only [Option.bind_some]
    split
    · rename_i name _ heq
      split at heq
      · cases heq
      · rename_i hname
        cases heq
        rw [if_neg hname, Option.some_or]
    · rename_i heq
      split at heq
      · rename_i hname
        rw [if_pos hname, Option.none_or]
      · cases heq

theorem assignee?_nil_symbol (s : List Char) : assignee? [] s = none := by
  cases s with
  | nil => rfl
  | cons c s => exact if_pos rfl

theorem named?_cons_of_notMem (h : symbol ≠ []) (hc : c ∉ symbol) (s : List Char) :
    named? symbol (c :: s) = none := by
  obtain ⟨a, symbol, rfl⟩ := List.exists_cons_of_ne_nil h
  rw [List.mem_cons, not_or] at hc
  rw [named?, strip?, if_neg (Ne.symm hc.1), Option.bind_none]

theorem named?_withReturns (hreturn : '\r' ∉ symbol) (hbreak : '\n' ∉ symbol) (s : List Char) :
    named? symbol (withReturns s) = named? symbol s := by
  rw [named?, named?, strip?_withReturns hreturn hbreak, Option.bind_map]
  simp only [Function.comp_def, takeWhile_withReturns (p := isWord) rfl rfl]

theorem named?_concat (hc : c ∉ symbol) (hword : isWord c = false) (s : List Char) :
    named? symbol (s ++ [c]) = named? symbol s := by
  rw [named?, named?, strip?_concat hc, Option.bind_map]
  simp only [Function.comp_def, takeWhile_concat hword]

theorem assignee?_withReturns (hreturn : '\r' ∉ symbol) (hbreak : '\n' ∉ symbol)
    (s : List Char) : assignee? symbol (withReturns s) = assignee? symbol s := by
  rcases eq_or_ne symbol [] with rfl | hsymbol
  · rw [assignee?_nil_symbol, assignee?_nil_symbol]
  induction s with
  | nil => rfl
  | cons c s ih =>
    by_cases hc : c = '\n'
    · -- no mention begins with either of the two characters
      subst hc
      rw [withReturns_break, assignee?_cons hsymbol, named?_cons_of_notMem hsymbol hreturn,
        assignee?_cons hsymbol, named?_cons_of_notMem hsymbol hbreak, assignee?_cons hsymbol,
        named?_cons_of_notMem hsymbol hbreak, ih]
      rfl
    · have hname := named?_withReturns hreturn hbreak (c :: s)
      rw [withReturns_cons_of_ne hc] at hname ⊢
      rw [assignee?_cons hsymbol, assignee?_cons hsymbol, hname, ih]

/-- A character behind a comment that could not stand in a mention changes no assignee. -/
theorem assignee?_concat (hc : c ∉ symbol) (hword : isWord c = false) (s : List Char) :
    assignee? symbol (s ++ [c]) = assignee? symbol s := by
  rcases eq_or_ne symbol [] with rfl | hsymbol
  · rw [assignee?_nil_symbol, assignee?_nil_symbol]
  induction s with
  | nil =>
    rw [List.nil_append, assignee?_cons hsymbol, named?_cons_of_notMem hsymbol hc]
    rfl
  | cons d s ih =>
    have hname := named?_concat hc hword (d :: s)
    rw [List.cons_append] at hname ⊢
    rw [assignee?_cons hsymbol, assignee?_cons hsymbol, hname, ih]

end Mentions

/-! ## Due dates -/

section DueDates

variable {phrases : List (List Char)} {c : Char}

theorem DueDate.announcement?_concat (hc : ∀ phrase ∈ phrases, c ∉ phrase) (comment : List Char) :
    announcement? phrases (comment ++ [c]) =
      (announcement? phrases comment).map (Prod.map id (· ++ [c])) := by
  induction phrases with
  | nil => rfl
  | cons phrase phrases ih =>
    rw [List.forall_mem_cons] at hc
    have hrest := ih hc.2
    simp only [announcement?] at hrest ⊢
    rw [List.findSome?_cons, List.findSome?_cons, cutAt?_concat hc.1, hrest]
    cases cutAt? phrase comment <;> rfl

/-- A blank behind a comment changes no due date. -/
theorem DueDate.ofComment_concat (hc : ∀ phrase ∈ phrases, c ∉ phrase) (hblank : isBlank c = true)
    (format : DateFormat) (comment : List Char) :
    ofComment phrases format (comment ++ [c]) = ofComment phrases format comment := by
  have hwindow : ∀ after : List Char,
      trim ((after ++ [c]).take format.window) = trim (after.take format.window) := by
    intro after
    rw [List.take_append]
    refine trim_append_of_isBlank ?_
    intro d hd
    rw [List.mem_singleton.1 (List.mem_of_mem_take hd)]
    exact hblank
  rw [ofComment, ofComment, announcement?_concat hc]
  cases announcement? phrases comment with
  | none => rfl
  | some announced => simp only [Option.map_some, Prod.map, id, hwindow]

end DueDates

/-! ## Comments -/

namespace Comment

variable {s text rest front back before : List Char} {c d : Comment} {r : Refusal} {offset : Nat}
  {x : Char}

/-- The second comment stands in the text with carriage returns where the first one stands in the
text. A block comment has got its own carriage returns, and a line comment that of the line break
behind it, if there is one. -/
inductive Returned (s : List Char) : Comment → Comment → Prop
  | block {front text back : List Char} : s = front ++ text ++ back → ['/', '*'] <+: text →
      Returned s ⟨byteSize front, text⟩ ⟨byteSize (withReturns front), withReturns text⟩
  | line {front text back : List Char} : s = front ++ text ++ back → ['/', '/'] <+: text →
      '\n' ∉ text → (∀ c, back.head? = some c → c = '\n') →
      Returned s ⟨byteSize front, text⟩ ⟨byteSize (withReturns front), text ++ lineEnd back⟩

/-! ### One step -/

theorem closing_withReturns (s : List Char) : cutAt? ['*', '/'] (withReturns s) =
    (cutAt? ['*', '/'] s).map (Prod.map withReturns withReturns) :=
  cutAt?_withReturns (by decide) (by decide) (by decide) s

theorem block_withReturns (h : block s = .ok (text, rest)) :
    block (withReturns s) = .ok (withReturns text, withReturns rest) := by
  obtain ⟨inside, body, rfl, hcut, rfl⟩ := block_eq_ok_iff.1 h
  refine block_eq_ok_iff.2 ⟨withReturns inside, withReturns body, ?_, ?_, ?_⟩
  · rw [withReturns_append]
    rfl
  · rw [closing_withReturns, hcut]
    rfl
  · rw [withReturns_append, withReturns_append]
    rfl

theorem block_withReturns_of_error (h : ∃ r, block s = .error r) :
    ∃ r, block (withReturns s) = .error r := by
  rw [block_eq_error_iff] at h ⊢
  intro inside' hs'
  obtain ⟨inside, hs, rfl⟩ := exists_of_withReturns_eq_append (by decide) (by decide) hs'
  rw [closing_withReturns, h inside hs]
  rfl

/-- A line comment ends where its line does. -/
theorem ends_of_line (h : line s = .ok (text, rest)) :
    '\n' ∉ text ∧ ∀ c, rest.head? = some c → c = '\n' := by
  obtain ⟨inside, -, rfl, rfl⟩ := line_eq_ok_iff.1 h
  constructor
  · intro hbreak
    rcases List.mem_append.1 hbreak with hbreak | hbreak
    · revert hbreak
      decide
    · simpa using List.mem_takeWhile_imp hbreak
  · intro c hc
    simpa using head_dropWhile hc

theorem line_withReturns (h : line s = .ok (text, rest)) :
    ∃ rest', withReturns rest = lineEnd rest ++ rest' ∧
      line (withReturns s) = .ok (text ++ lineEnd rest, rest') := by
  obtain ⟨inside, rfl, rfl, rfl⟩ := line_eq_ok_iff.1 h
  obtain ⟨rest', hrest, htake, hdrop⟩ := firstLine_withReturns inside
  refine ⟨rest', hrest, line_eq_ok_iff.2 ⟨withReturns inside, ?_, ?_, hdrop.symm⟩⟩
  · rw [withReturns_append]
    rfl
  · rw [htake, List.append_assoc]

theorem line_withReturns_of_error (h : ∃ r, line s = .error r) :
    ∃ r, line (withReturns s) = .error r := by
  rw [line_eq_error_iff] at h ⊢
  intro inside' hs'
  obtain ⟨inside, hs, -⟩ := exists_of_withReturns_eq_append (by decide) (by decide) hs'
  exact h inside hs

/-- A comment at the beginning of a text is one in the text with carriage returns. If it is a line
comment, it ends before the line break, so that it takes the carriage return with it. -/
theorem any_withReturns (h : any s = .ok (text, rest)) :
    (['/', '*'] <+: text ∧ any (withReturns s) = .ok (withReturns text, withReturns rest)) ∨
    line s = .ok (text, rest) ∧ ∃ rest', withReturns rest = lineEnd rest ++ rest' ∧
      any (withReturns s) = .ok (text ++ lineEnd rest, rest') := by
  rcases any_eq_ok_iff.1 h with hblock | ⟨hblock, hline⟩
  · exact .inl ⟨opening_of_block hblock, any_eq_ok_iff.2 (.inl (block_withReturns hblock))⟩
  · obtain ⟨rest', hrest, hreturns⟩ := line_withReturns hline
    have hany := any_eq_ok_iff.2 (.inr ⟨block_withReturns_of_error hblock, hreturns⟩)
    exact .inr ⟨hline, rest', hrest, hany⟩

theorem any_withReturns_of_error (h : any s = .error r) :
    ∃ r', any (withReturns s) = .error r' := by
  obtain ⟨hblock, hline⟩ := any_eq_error_iff.1 ⟨r, h⟩
  exact any_eq_error_iff.2 ⟨block_withReturns_of_error hblock, line_withReturns_of_error hline⟩

theorem noSlash_lineEnd (rest : List Char) : '/' ∉ lineEnd rest := by
  unfold lineEnd
  split <;> decide

/-- Where no comment begins, a scan passes over the character and the carriage return before it. -/
theorem scanFrom_withReturns_cons (h : any (x :: s) = .error r) (offset : Nat) :
    scanFrom offset (withReturns (x :: s)) =
      scanFrom (offset + byteSize (withReturns [x])) (withReturns s) := by
  by_cases hx : x = '\n'
  · subst hx
    exact scanFrom_append_of_noSlash (by decide : '/' ∉ ['\r', '\n']) offset (withReturns s)
  · obtain ⟨r', hr'⟩ := any_withReturns_of_error h
    rw [withReturns_cons_of_ne hx] at hr' ⊢
    rw [scanFrom_cons_of_not_any hr', withReturns_cons_of_ne hx, withReturns_nil, byteSize_cons,
      byteSize_nil, Nat.add_zero]

/-! ### The scan -/

/-- The scans of the rest of a text and of the rest with carriage returns find the same comments. -/
theorem forall₂_scanFrom_withReturns (before s : List Char) :
    List.Forall₂ (Returned (before ++ s)) (scanFrom (byteSize before) s)
      (scanFrom (byteSize (withReturns before)) (withReturns s)) := by
  -- on the length of the rest: the scan of the text sets the pace
  induction hn : s.length using Nat.strong_induction_on generalizing before s with
  | _ n ih =>
    subst hn
    rcases scan_cases s with rfl | ⟨text, rest, hany⟩ | ⟨x, tail, r, rfl, hany⟩
    · rw [withReturns_nil, scanFrom_nil, scanFrom_nil]
      exact .nil
    · have hs := (eq_append_of_any hany).1
      have htail := ih rest.length (length_lt_of_any hany) (before ++ text) rest rfl
      rw [List.append_assoc, ← hs, byteSize_append, withReturns_append, byteSize_append] at htail
      have hsplit : before ++ s = before ++ text ++ rest := by rw [hs, List.append_assoc]
      rcases any_withReturns hany with ⟨hmark, hreturns⟩ | ⟨hline, rest', hrest, hreturns⟩
      · rw [scanFrom_of_any hany, scanFrom_of_any hreturns]
        exact .cons (.block hsplit hmark) htail
      · -- the carriage return that the comment has taken is missing from the rest
        obtain ⟨hbreak, hend⟩ := ends_of_line hline
        rw [withReturns_eq_self hbreak, hrest,
          scanFrom_append_of_noSlash (noSlash_lineEnd rest)] at htail
        rw [scanFrom_of_any hany, scanFrom_of_any hreturns, byteSize_append, ← Nat.add_assoc]
        exact .cons (.line hsplit (opening_of_line hline) hbreak hend) htail
    · have htail := ih tail.length (by simp) (before ++ [x]) tail rfl
      rw [List.append_assoc, List.singleton_append, byteSize_append, withReturns_append,
        byteSize_append] at htail
      rw [scanFrom_cons_of_not_any hany, scanFrom_withReturns_cons hany]
      exact htail

/-! ### What the comments have in common -/

namespace Returned

theorem isTodo_eq (h : Returned s c d) : isTodo d = isTodo c := by
  cases h with
  | block => exact occurs_withReturns (by decide) (by decide) (by decide) _
  | line => exact append_lineEnd (f := occurs tag) (occurs_concat (by decide) _) _

theorem position_eq (h : Returned s c d) :
    Position.ofOffset (withReturns s) d.offset = Position.ofOffset s c.offset := by
  have hfront : ∀ front text back, s = front ++ text ++ back →
      Position.ofOffset (withReturns s) (byteSize (withReturns front)) =
        Position.ofOffset s (byteSize front) := by
    rintro front text back rfl
    rw [List.append_assoc, withReturns_append, Position.ofOffset_byteSize,
      Position.ofOffset_byteSize, Position.after_withReturns]
  cases h with
  | block hs => exact hfront _ _ _ hs
  | line hs => exact hfront _ _ _ hs

theorem assignee_eq {r : TodoReader} (h : Returned s c d) (hreturn : '\r' ∉ r.symbol)
    (hbreak : '\n' ∉ r.symbol) : r.assignee d.text = r.assignee c.text := by
  have hname : assignee? r.symbol d.text = assignee? r.symbol c.text := by
    cases h with
    | block => exact assignee?_withReturns hreturn hbreak _
    | line => exact append_lineEnd (f := assignee? r.symbol) (assignee?_concat hreturn rfl _) _
  rw [TodoReader.assignee, hname, TodoReader.assignee]

theorem dueDate_eq {r : TodoReader} (h : Returned s c d) (hline : ['/', '/'] <+: c.text)
    (hreturn : ∀ phrase ∈ r.phrases, '\r' ∉ phrase) : r.dueDate d.text = r.dueDate c.text := by
  cases h with
  | block hs hblock =>
    have hmark := List.prefix_of_prefix_length_le hblock hline (le_refl 2)
    simp at hmark
  | line =>
    exact append_lineEnd (f := r.dueDate)
      (DueDate.ofComment_concat hreturn (by decide) r.format _) _

end Returned

theorem forall₂_todos_withReturns (s : List Char) :
    List.Forall₂ (Returned s) (todos s) (todos (withReturns s)) :=
  List.rel_filter (fun _ _ h => Bool.eq_iff_iff.1 h.isTodo_eq.symm)
    (forall₂_scanFrom_withReturns [] s)

end Comment

/-! ## Todos -/

/-- The todos are the same, up to their due dates. -/
structure Todo.SameButDue (t u : Todo) : Prop where
  assignee : u.assignee = t.assignee
  filePath : u.filePath = t.filePath
  line : u.line = t.line
  column : u.column = t.column

namespace TodoReader

open Comment

variable {text : List Char} {c d : Comment}

theorem todo_withReturns (r : TodoReader) (file : String) (h : Returned text c d)
    (hreturn : '\r' ∉ r.symbol) (hbreak : '\n' ∉ r.symbol) :
    (r.todo file text c).SameButDue (r.todo file (withReturns text) d) where
  assignee := h.assignee_eq hreturn hbreak
  filePath := rfl
  line := congrArg Position.line h.position_eq
  column := congrArg Position.column h.position_eq

/-- A text and the same text with carriage returns have the same todo comments, one by one, and
their todos have the same assignees, lines and columns. What is due by a line comment, or why that
cannot be said, is the same too, and so is its todo. -/
theorem todos_withReturns (r : TodoReader) (file : String) (text : List Char)
    (hphrases : ∀ phrase ∈ r.phrases, '\r' ∉ phrase) (hreturn : '\r' ∉ r.symbol)
    (hbreak : '\n' ∉ r.symbol) :
    List.Forall₂ Todo.SameButDue (r.todos file text) (r.todos file (withReturns text)) ∧
      List.Forall₂ (fun c d => Returned text c d ∧
          (r.todo file text c).SameButDue (r.todo file (withReturns text) d) ∧
          (['/', '/'] <+: c.text → r.dueDate d.text = r.dueDate c.text ∧
            r.todo file (withReturns text) d = r.todo file text c))
        (Comment.todos text) (Comment.todos (withReturns text)) := by
  have hcomments := forall₂_todos_withReturns text
  constructor
  · rw [todos, todos, List.forall₂_map_left_iff, List.forall₂_map_right_iff]
    exact hcomments.imp fun c d h => r.todo_withReturns file h hreturn hbreak
  · refine hcomments.imp ?_
    intro c d h
    refine ⟨h, r.todo_withReturns file h hreturn hbreak, ?_⟩
    intro hline
    have hdue := h.dueDate_eq hline hphrases
    refine ⟨hdue, ?_⟩
    rw [todo, todo, hdue, h.position_eq, h.assignee_eq hreturn hbreak]

/-- A date that ends its line, behind a block comment of two lines. -/
theorem todos_withReturns_dateAtLineEnd :
    (∀ phrase ∈ ["due to".toList], '\r' ∉ phrase) ∧ '\r' ∉ ['@'] ∧ '\n' ∉ ['@'] ∧
      Comment.todos (withReturns "/* TODO\n@a */\n// TODO due to 10.10.2023\n".toList) =
        [⟨0, "/* TODO\r\n@a */".toList⟩, ⟨16, "// TODO due to 10.10.2023\r".toList⟩] ∧
      (∀ format, DueDate.ofComment ["due to".toList] format "// TODO due to 10.10.2023\r".toList =
        DueDate.ofComment ["due to".toList] format "// TODO due to 10.10.2023".toList) ∧
      ∀ format, List.Forall₂ Todo.SameButDue
        (todos ⟨["due to".toList], format, ['@']⟩ "A.java"
          "/* TODO\n@a */\n// TODO due to 10.10.2023\n".toList)
        (todos ⟨["due to".toList], format, ['@']⟩ "A.java"
          (withReturns "/* TODO\n@a */\n// TODO due to 10.10.2023\n".toList)) := by
  have hphrases : ∀ phrase ∈ ["due to".toList], '\r' ∉ phrase := by decide
  have hreturn : '\r' ∉ ['@'] := by decide
  have hbreak : '\n' ∉ ['@'] := by decide
  have hcomments : Comment.todos "/* TODO\n@a */\n// TODO due to 10.10.2023\n".toList =
      [⟨0, "/* TODO\n@a */".toList⟩, ⟨14, "// TODO due to 10.10.2023".toList⟩] := by cbv
  have hreturned : Comment.todos
      (withReturns "/* TODO\n@a */\n// TODO due to 10.10.2023\n".toList) =
      [⟨0, "/* TODO\r\n@a */".toList⟩, ⟨16, "// TODO due to 10.10.2023\r".toList⟩] := by cbv
  have hmain := fun format => todos_withReturns ⟨["due to".toList], format, ['@']⟩ "A.java"
    "/* TODO\n@a */\n// TODO due to 10.10.2023\n".toList hphrases hreturn hbreak
  refine ⟨hphrases, hreturn, hbreak, hreturned, ?_, fun format => (hmain format).1⟩
  intro format
  have hpairs := (hmain format).2
  rw [hcomments, hreturned] at hpairs
  obtain ⟨-, ⟨⟨-, -, hdue⟩, -⟩⟩ := List.forall₂_cons.1 hpairs |>.imp_right List.forall₂_cons.1
  exact (hdue ⟨_, rfl⟩).1

end TodoReader

end TodoAudit
