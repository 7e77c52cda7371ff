import TodoAudit.Proofs.Comment.Greedy
import TodoAudit.Proofs.Text.Lines
import TodoAudit.Todo.Reader

/-!
# Whole lines in front of a text

Lines in front of a text move its todos down and change nothing else in them, as long as they leave
no `/*` open that the text could close (`todos_append`). The scan follows that of the lines up to
their end and goes on with that of the text (`scanFrom_append`): a comment that begins in the lines
ends in them, and no mark stands across the seam.
-/

namespace TodoAudit

open Text

/-- The todo as it is when `lines` more lines stand in front of it. -/
def Todo.movedDown (lines : Nat) (t : Todo) : Todo :=
  { t with line := t.line + lines }

namespace Comment

/-- The comment as it is when `size` more bytes stand in front of it. -/
def moved (size : Nat) (c : Comment) : Comment :=
  { c with offset := c.offset + size }

/-- A `/*` that is never closed stands at byte `p`, and not inside of a comment. A scan stops there,
finds no comment and goes on. -/
structure OpenAt (s : List Char) (p : Nat) : Prop where
  opener : StandsAt ['/', '*'] s p
  unclosed : ∀ q, p + 2 ≤ q → ¬ StandsAt ['*', '/'] s q
  outside : ∀ c ∈ scan s, p < c.offset ∨ c.offset + byteSize c.text ≤ p

variable {s t a b text rest inside front : List Char} {p n offset : Nat} {x : Char} {r r' : Refusal}

/-! ## Scans from another place -/

theorem scanFrom_add (offset n : Nat) (s : List Char) :
    scanFrom (offset + n) s = (scanFrom offset s).map (moved n) := by
  induction hlen : s.length using Nat.strong_induction_on generalizing offset s with
  | _ k ih =>
    subst hlen
    rcases scan_cases s with rfl | ⟨text, rest, hany⟩ | ⟨x, tail, r, rfl, hany⟩
    · rw [scanFrom_nil, scanFrom_nil, List.map_nil]
    · rw [scanFrom_of_any hany, scanFrom_of_any hany, List.map_cons, Nat.add_right_comm,
        ih rest.length (length_lt_of_any hany) _ _ rfl]
      rfl
    · rw [scanFrom_cons_of_not_any hany, scanFrom_cons_of_not_any hany, Nat.add_right_comm,
        ih tail.length (by simp) _ _ rfl]

theorem scanFrom_eq_map_scan (offset : Nat) (s : List Char) :
    scanFrom offset s = (scan s).map (moved offset) := by
  rw [scan, ← scanFrom_add, Nat.zero_add]

/-- A `/*` is a comment if there is a `*/` behind it. -/
theorem exists_isSpan_of_closed (h : ['*', '/'] <:+: inside) :
    ∃ e, IsSpan (['/', '*'] ++ inside) 0 e := by
  cases hcut : cutAt? ['*', '/'] inside with
  | none => exact absurd h (cutAt?_eq_none_iff.1 hcut)
  | some parts =>
    refine ⟨byteSize parts.1 + 4, Or.inl (blockSpan_zero_iff.2 ⟨_, isLeast_of_cutAt? hcut, rfl⟩)⟩

/-! ## One step at the beginning of whole lines -/

theorem block_append (h : block s = .ok (text, rest)) (t : List Char) :
    block (s ++ t) = .ok (text, rest ++ t) := by
  obtain ⟨inside, body, rfl, hcut, rfl⟩ := block_eq_ok_iff.1 h
  exact block_eq_ok_iff.2 ⟨inside ++ t, body, List.append_assoc _ _ _, cutAt?_append hcut t, rfl⟩

/-- A line comment in whole lines ends in them. -/
theorem line_append (hs : IsLines s) (h : line s = .ok (text, rest)) (t : List Char) :
    line (s ++ t) = .ok (text, rest ++ t) := by
  obtain ⟨inside, rfl, rfl, rfl⟩ := line_eq_ok_iff.1 h
  have hbreak : '\n' ∈ inside := by
    simpa using hs.mem_of_ne_nil (by simp)
  obtain ⟨u, v, rfl, hu⟩ := List.eq_append_cons_of_mem hbreak
  have hpos := forall_ne_of_notMem hu
  refine line_eq_ok_iff.2 ⟨u ++ '\n' :: v ++ t, List.append_assoc _ _ _, ?_, ?_⟩
  · rw [List.append_assoc, List.takeWhile_append_of_pos hpos, List.takeWhile_append_of_pos hpos]
    simp
  · rw [List.append_assoc, List.dropWhile_append_of_pos hpos, List.dropWhile_append_of_pos hpos]
    simp

/-- A comment that begins in whole lines ends in them. -/
theorem any_append (hs : IsLines s) (h : any s = .ok (text, rest)) (t : List Char) :
    any (s ++ t) = .ok (text, rest ++ t) := by
  rw [any_eq_ok_iff] at h ⊢
  rcases h with hblock | ⟨-, hline⟩
  · exact .inl (block_append hblock t)
  · -- where a line comment begins no block comment does, whatever follows
    refine .inr ⟨block_eq_error_iff.2 ?_, line_append hs hline t⟩
    obtain ⟨inside, rfl, -⟩ := line_eq_ok_iff.1 hline
    intro inside' h
    simp at h

/-- If behind the lines a comment begins with them that has not been there, it is the text that
closes a `/*` of theirs. -/
theorem closed_of_any_append (hs : IsLines s) (hne : s ≠ []) (h : any s = .error r)
    (h' : any (s ++ t) = .ok (text, rest)) : ['/', '*'] <+: s ∧ ['*', '/'] <:+: t := by
  rcases any_eq_ok_iff.1 h' with hblock | ⟨-, hline⟩
  · have hspan := blockSpan_of_block hblock
    have hopen : ['/', '*'] <+: s :=
      pair_isPrefix_of_append hs hne (by decide) (standsAt_zero_iff.1 hspan.1)
    refine ⟨hopen, ?_⟩
    obtain ⟨inside, rfl⟩ := hopen
    rw [List.append_assoc, blockSpan_zero_iff] at hspan
    obtain ⟨k, hk, -⟩ := hspan
    refine (pair_isInfix_append hs.of_append (by decide)
      (exists_standsAt_iff.1 ⟨k, hk.1⟩)).resolve_left ?_
    intro hclosed
    obtain ⟨e, he⟩ := exists_isSpan_of_closed hclosed
    exact not_isSpan_of_any h he
  · obtain ⟨inside, hinside, -⟩ := line_eq_ok_iff.1 hline
    obtain ⟨inside, rfl⟩ := pair_isPrefix_of_append hs hne (by decide) ⟨inside, hinside.symm⟩
    exact absurd rfl (line_eq_error_iff.1 (any_eq_error_iff.1 ⟨r, h⟩).2 inside)

/-! ## Open marks -/

theorem OpenAt.append (h : OpenAt s p) (hfront : ∀ c ∈ scan (front ++ s),
    c.offset + byteSize c.text ≤ byteSize front ∨ ∃ c' ∈ scan s, c = c'.moved (byteSize front)) :
    OpenAt (front ++ s) (byteSize front + p) := by
  refine ⟨standsAt_append_iff.2 h.opener, ?_, ?_⟩
  · intro q hq hclose
    obtain ⟨k, rfl⟩ := Nat.exists_eq_add_of_le (show byteSize front ≤ q by omega)
    exact h.unclosed k (by omega) (standsAt_append_iff.1 hclose)
  · intro c hc
    rcases hfront c hc with hle | ⟨c', hc', rfl⟩
    · omega
    · have hout := h.outside c' hc'
      simp only [moved]
      omega

theorem OpenAt.of_rest (hany : any s = .ok (text, rest)) (h : OpenAt rest p) :
    OpenAt s (byteSize text + p) := by
  obtain ⟨rfl, -⟩ := eq_append_of_any hany
  refine h.append ?_
  intro c hc
  rw [scan, scanFrom_of_any hany, scanFrom_eq_map_scan] at hc
  rcases List.mem_cons.1 hc with rfl | hc
  · exact Or.inl (by simp)
  · obtain ⟨c', hc', rfl⟩ := List.mem_map.1 hc
    exact Or.inr ⟨c', hc', by simp⟩

theorem OpenAt.of_tail (hany : any (x :: s) = .error r) (h : OpenAt s p) :
    OpenAt (x :: s) (byteSize [x] + p) := by
  have hstep : ∀ c ∈ scan ([x] ++ s), ∃ c' ∈ scan s, c = c'.moved (byteSize [x]) := by
    intro c hc
    rw [List.singleton_append, scan, scanFrom_cons_of_not_any hany, scanFrom_eq_map_scan] at hc
    obtain ⟨c', hc', rfl⟩ := List.mem_map.1 hc
    exact ⟨c', hc', by simp⟩
  exact h.append fun c hc => Or.inr (hstep c hc)

theorem openAt_zero (hany : any s = .error r) (h : ['/', '*'] <+: s) : OpenAt s 0 := by
  obtain ⟨inside, rfl⟩ := h
  refine ⟨standsAt_zero_iff.2 (List.prefix_append _ _), ?_, ?_⟩
  · intro q hq hclose
    obtain ⟨k, rfl⟩ := Nat.exists_eq_add_of_le hq
    rw [Nat.zero_add, show 2 = byteSize ['/', '*'] from rfl, standsAt_append_iff] at hclose
    obtain ⟨e, he⟩ := exists_isSpan_of_closed (exists_standsAt_iff.1 ⟨k, hclose⟩)
    exact not_isSpan_of_any hany he
  · intro c hc
    have hscan : scan (['/', '*'] ++ inside) = (scan ('*' :: inside)).map (moved 1) :=
      (scanFrom_cons_of_not_any hany).trans (scanFrom_eq_map_scan _ _)
    rw [hscan] at hc
    obtain ⟨c', -, rfl⟩ := List.mem_map.1 hc
    exact Or.inl (Nat.succ_pos _)

/-! ## The scan of lines with a text behind them -/

/-- The lines leave no `/*` open that the text closes. -/
def Separate (a b : List Char) : Prop :=
  (¬ ['*', '/'] <:+: b) ∨ ∀ p, ¬ OpenAt a p

theorem scanFrom_append (ha : IsLines a) (h : Separate a b) (offset : Nat) :
    scanFrom offset (a ++ b) = scanFrom offset a ++ scanFrom (offset + byteSize a) b := by
  -- on the length of the lines: a step of their scan is a step of the scan of the whole
  induction hlen : a.length using Nat.strong_induction_on generalizing offset a with
  | _ k ih =>
    subst hlen
    rcases scan_cases a with rfl | ⟨text, rest, hany⟩ | ⟨x, tail, r, rfl, hany⟩
    · simp [scanFrom_nil]
    · have hrest : IsLines rest := by
        rw [(eq_append_of_any hany).1] at ha
        exact ha.of_append
      have hsep : Separate rest b := h.imp_right fun hno p hopen => hno _ (hopen.of_rest hany)
      rw [scanFrom_of_any (any_append ha hany b), scanFrom_of_any hany,
        ih rest.length (length_lt_of_any hany) hrest hsep _ rfl, List.cons_append,
        (eq_append_of_any hany).1, byteSize_append, Nat.add_assoc]
    · have htail : IsLines tail := ha.of_append (a := [x])
      have hsep : Separate tail b := h.imp_right fun hno p hopen => hno _ (hopen.of_tail hany)
      obtain ⟨r', hlong⟩ : ∃ r', any (x :: tail ++ b) = .error r' := by
        cases hlong : any (x :: tail ++ b) with
        | error r' => exact ⟨r', rfl⟩
        | ok eaten =>
          obtain ⟨hopen, hclose⟩ := closed_of_any_append ha (by simp) hany hlong
          rcases h with hno | hno
          · exact absurd hclose hno
          · exact absurd (openAt_zero hany hopen) (hno 0)
      rw [List.cons_append] at hlong ⊢
      rw [scanFrom_cons_of_not_any hlong, scanFrom_cons_of_not_any hany,
        ih tail.length (by simp) htail hsep _ rfl, byteSize_cons, Nat.add_assoc]

theorem todos_append (ha : IsLines a) (h : Separate a b) :
    todos (a ++ b) = todos a ++ (todos b).map (moved (byteSize a)) := by
  rw [todos, scan, scanFrom_append ha h, List.filter_append, Nat.zero_add,
    scanFrom_eq_map_scan (byteSize a), List.filter_map]
  rfl

end Comment

/-! ## Todos -/

namespace TodoReader

open Comment

variable {a b : List Char} {c : Comment}

theorem todo_append_left (r : TodoReader) (file : String) (hc : c ∈ Comment.scan a)
    (b : List Char) :
    r.todo file (a ++ b) c = r.todo file a c := by
  obtain ⟨front, back, ha, hoffset⟩ := split_of_mem_scan hc
  rw [List.append_assoc] at ha
  rw [todo, todo, hoffset, Position.ofOffset_append_left ha]

theorem todo_append_right (r : TodoReader) (file : String) (ha : IsLines a)
    (hc : c ∈ Comment.scan b) :
    r.todo file (a ++ b) (c.moved (byteSize a)) =
      (r.todo file b c).movedDown (a.count '\n') := by
  obtain ⟨front, back, hb, hoffset⟩ := split_of_mem_scan hc
  rw [List.append_assoc] at hb
  rw [todo, todo, moved, hoffset, Nat.add_comm, Position.ofOffset_append_right ha hb]
  rfl

end TodoReader

/-- Lines in front of a text that leave no `/*` open for it to close add their own comments and
todos in front of those of the text, which are moved: the comments by the bytes of the lines, and
the todos by their number. -/
theorem todos_append_lines {a b : List Char} (ha : IsLines a) (h : Comment.Separate a b) :
    Comment.todos (a ++ b) =
        Comment.todos a ++ (Comment.todos b).map (Comment.moved (byteSize a)) ∧
      ∀ (r : TodoReader) (file : String), r.todos file (a ++ b) =
        r.todos file a ++ (r.todos file b).map (Todo.movedDown (a.count '\n')) := by
  have htodos := Comment.todos_append ha h
  refine ⟨htodos, ?_⟩
  intro r file
  rw [TodoReader.todos, htodos, List.map_append, List.map_map, TodoReader.todos, TodoReader.todos,
    List.map_map]
  congr 1
  · refine List.map_congr_left fun c hc => ?_
    exact r.todo_append_left file (List.mem_of_mem_filter hc) b
  · refine List.map_congr_left fun c hc => ?_
    exact r.todo_append_right file ha (List.mem_of_mem_filter hc)

/-- A line with a `/*` inside of a comment, before a text with a `*/`. -/
theorem todos_append_lines_hiddenOpening :
    IsLines "// see /* TODO é\n".toList ∧
      Comment.Separate "// see /* TODO é\n".toList "x(); */ // TODO\n".toList ∧
      Comment.todos ("// see /* TODO é\n".toList ++ "x(); */ // TODO\n".toList) =
        Comment.todos "// see /* TODO é\n".toList ++
          (Comment.todos "x(); */ // TODO\n".toList).map (Comment.moved 18) := by
  have ha : IsLines "// see /* TODO é\n".toList := by
    intro c hc
    cases hc
    rfl
  have hscan : Comment.scan "// see /* TODO é\n".toList = [⟨0, "// see /* TODO é".toList⟩] := by
    cbv
  have h : Comment.Separate "// see /* TODO é\n".toList "x(); */ // TODO\n".toList := by
    refine Or.inr ?_
    intro p hopen
    have hend := add_le_of_standsAt hopen.opener
    rw [show byteSize "// see /* TODO é\n".toList = 18 by cbv,
      show byteSize ['/', '*'] = 2 from rfl] at hend
    have hout : p < 0 ∨ 0 + byteSize "// see /* TODO é".toList ≤ p :=
      hopen.outside _ (hscan ▸ List.mem_singleton_self _)
    rw [show byteSize "// see /* TODO é".toList = 17 by cbv] at hout
    omega
  exact ⟨ha, h, (todos_append_lines ha h).1⟩

end TodoAudit
