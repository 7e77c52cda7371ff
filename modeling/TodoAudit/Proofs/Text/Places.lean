import TodoAudit.Proofs.Text.Lines

/-!
# Lines and columns name places

The position behind a text says where in a longer text it ends: the lines in front of its last one
are passed over by the line, and its last line is passed over by the column
(`fromLine_after`). Further to the right the position is later (`Position.precedes_after_append`).
-/

namespace TodoAudit.Text

variable {s front back x : List Char}

/-! ## From the beginning of a line on -/

/-- The text behind its first line break, which is nothing if it has none. -/
def behindFirstLine (s : List Char) : List Char :=
  (s.dropWhile (· ≠ '\n')).tail

/-- The text from the beginning of a line on. Lines count from one. -/
def fromLine (line : Nat) (s : List Char) : List Char :=
  behindFirstLine^[line - 1] s

theorem behindFirstLine_append (h : '\n' ∉ front) (back : List Char) :
    behindFirstLine (front ++ '\n' :: back) = back := by
  rw [behindFirstLine, List.dropWhile_append_of_pos (forall_ne_of_notMem h),
    List.dropWhile_cons_of_neg (by simp), List.tail_cons]

/-- As many lines as a text of whole lines has are passed over by passing over the text. -/
theorem iterate_behindFirstLine (h : IsLines front) (back : List Char) :
    behindFirstLine^[front.count '\n'] (front ++ back) = back := by
  -- on the number of line breaks: a step passes over the first line
  induction hn : front.count '\n' generalizing front with
  | zero =>
    have hnil : front = [] := by
      by_contra hne
      exact List.count_eq_zero.1 hn (h.mem_of_ne_nil hne)
    rw [hnil]
    rfl
  | succ n ih =>
    have hbreak : '\n' ∈ front := List.count_pos_iff.1 (by omega)
    obtain ⟨line, lines, rfl, hline⟩ := List.eq_append_cons_of_mem hbreak
    have hlines : IsLines lines := by
      rw [List.append_cons] at h
      exact h.of_append
    have hcount : lines.count '\n' = n := by
      rw [List.count_append, List.count_eq_zero.2 hline, List.count_cons_self] at hn
      omega
    rw [Function.iterate_succ_apply, List.append_assoc, List.cons_append,
      behindFirstLine_append hline]
    exact ih hlines hcount

theorem exists_lastLine (s : List Char) :
    ∃ lines line, s = lines ++ line ∧ IsLines lines ∧ '\n' ∉ line := by
  by_cases hbreak : '\n' ∈ s
  · obtain ⟨front, line, rfl, hline⟩ := eq_append_cons_of_mem_last hbreak
    exact ⟨front ++ ['\n'], line, List.append_cons _ _ _, by simp [IsLines], hline⟩
  · exact ⟨[], s, rfl, by simp [IsLines], hbreak⟩

/-! ## Positions -/

/-- The first position is on an earlier line, or further to the left on the same line. -/
def Position.Precedes (p q : Position) : Prop :=
  p.line < q.line ∨ p.line = q.line ∧ p.column < q.column

theorem Position.Precedes.ne {p q : Position} (h : p.Precedes q) : p ≠ q := by
  rintro rfl
  rcases h with h | ⟨-, h⟩ <;> omega

/-- Going on in a text leads to a later position. -/
theorem Position.precedes_after_append (s : List Char) (hx : x ≠ []) :
    (Position.after s).Precedes (Position.after (s ++ x)) := by
  rw [Precedes, Position.after, Position.after, List.count_append]
  dsimp only
  by_cases hbreak : '\n' ∈ x
  · have hpos := List.count_pos_iff.2 hbreak
    exact Or.inl (by omega)
  · have hlength := List.length_pos_iff.2 hx
    rw [List.count_eq_zero.2 hbreak, length_lastLine_append s hbreak]
    exact Or.inr ⟨rfl, by omega⟩

/-- The line of a position leads to the last line of the text before it, of which the column has
the length. -/
theorem fromLine_after (before rest : List Char) : ∃ line,
    fromLine (Position.after before).line (before ++ rest) = line ++ rest ∧
      line.length + 1 = (Position.after before).column ∧ '\n' ∉ line := by
  obtain ⟨lines, line, rfl, hlines, hline⟩ := exists_lastLine before
  refine ⟨line, ?_, ?_, hline⟩
  · have hcount : (Position.after (lines ++ line)).line - 1 = lines.count '\n' := by
      rw [Position.after, List.count_append, List.count_eq_zero.2 hline]
      rfl
    rw [fromLine, hcount, List.append_assoc]
    exact iterate_behindFirstLine hlines (line ++ rest)
  · have hlength := length_lastLine_append lines hline
    rw [hlines.takeWhile_reverse, List.length_nil, Nat.zero_add] at hlength
    rw [Position.after, hlength]

end TodoAudit.Text
