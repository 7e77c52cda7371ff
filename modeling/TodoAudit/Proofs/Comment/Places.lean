import TodoAudit.Proofs.Bytes.Todos
import TodoAudit.Proofs.Text.Places

/-!
# The places of todos

The line and the column of an offset lead back to the text from that offset on, and a later offset
has a later line and column (`todos_at_places`). So the todos of a file stand in the order
of their places, and at the place of each stands the comment from which it has been read.
-/

namespace TodoAudit

open Text

variable {text : List Char} {c : Comment}

/-- The place of the todo in its file. -/
def Todo.place (t : Todo) : Position :=
  ⟨t.line, t.column⟩

/-- The text begins with the comment, its delimiters included, and the tag occurs in the comment. -/
structure Comment.IsTodoAt (s word : List Char) : Prop where
  opening : ['/', '/'] <+: word ∨ ['/', '*'] <+: word
  span : IsSpan s 0 (byteSize word)
  isPrefix : word <+: s
  tagged : tag <:+: word

namespace Text

/-- A later offset has a later position. -/
theorem Position.precedes_ofOffset {p q : Nat} (hp : Bytes.IsBoundary text p)
    (hq : Bytes.IsBoundary text q) (h : p < q) :
    (Position.ofOffset text p).Precedes (Position.ofOffset text q) := by
  obtain ⟨a, b, htext, rfl⟩ := Bytes.isBoundary_iff.1 hp
  obtain ⟨c, d, rfl, rfl⟩ := Bytes.isBoundary_iff.1 hq
  rcases List.append_eq_append_iff.1 htext with ⟨x, rfl, rfl⟩ | ⟨x, rfl, rfl⟩
  · rw [byteSize_append] at h
    omega
  · have hx : x ≠ [] := by
      rintro rfl
      simp at h
    rw [Position.ofOffset_byteSize, List.append_assoc, Position.ofOffset_byteSize]
    exact Position.precedes_after_append a hx

/-- The position of an offset leads back to the text from that offset on. -/
theorem Position.drop_fromLine (before rest : List Char) :
    (fromLine (Position.after before).line (before ++ rest)).drop
      ((Position.after before).column - 1) = rest := by
  obtain ⟨line, hline, hcolumn, -⟩ := fromLine_after before rest
  rw [hline, ← hcolumn, Nat.add_sub_cancel, List.drop_left]

end Text

/-! ## The comments of a text -/

theorem Comment.isTodoAt_of_mem_todos (h : c ∈ Comment.todos text) : ∃ before rest,
    text = before ++ rest ∧ byteSize before = c.offset ∧ Comment.IsTodoAt rest c.text := by
  obtain ⟨hscan, htodo⟩ := List.mem_filter.1 h
  obtain ⟨front, back, rfl, hoffset, hany⟩ := Comment.any_of_mem_scanFrom hscan
  refine ⟨front, c.text ++ back, List.append_assoc _ _ _, by simpa using hoffset.symm, ?_⟩
  exact {
    opening := Comment.opening_of_any hany
    span := Comment.isSpan_of_any hany
    isPrefix := List.prefix_append _ _
    tagged := Comment.isTodo_iff.1 htodo }

namespace TodoReader

/-- The todos of a file stand in the order of their places. -/
theorem pairwise_place_todos (r : TodoReader) (file : String) (text : List Char) :
    (r.todos file text).Pairwise fun t u => t.place.Precedes u.place := by
  rw [todos, List.pairwise_map]
  refine (Comment.pairwise_todos text).imp_of_mem ?_
  intro c d hc hd hlt
  obtain ⟨a, b, hab, hoffset, -⟩ := Comment.isTodoAt_of_mem_todos hc
  obtain ⟨a', b', hab', hoffset', -⟩ := Comment.isTodoAt_of_mem_todos hd
  exact Position.precedes_ofOffset (Bytes.isBoundary_iff.2 ⟨a, b, hab, hoffset⟩)
    (Bytes.isBoundary_iff.2 ⟨a', b', hab', hoffset'⟩) hlt.2

/-- What is read of a todo is read of the comment at its place. -/
theorem exists_isTodoAt_of_mem_todos (r : TodoReader) {file : String} {t : Todo}
    (h : t ∈ r.todos file text) : ∃ word,
      Comment.IsTodoAt ((fromLine t.line text).drop (t.column - 1)) word ∧
      t.assignee = r.assignee word ∧ t.dueDate = (r.dueDate word).toDate? := by
  obtain ⟨c, hc, rfl⟩ := List.mem_map.1 h
  obtain ⟨before, rest, rfl, hoffset, hword⟩ := Comment.isTodoAt_of_mem_todos hc
  have hplace : Position.ofOffset (before ++ rest) c.offset = Position.after before := by
    rw [← hoffset, Position.ofOffset_byteSize]
  refine ⟨c.text, ?_, rfl, rfl⟩
  rw [todo, hplace]
  dsimp only
  rwa [Position.drop_fromLine]

end TodoReader

/-- Where an offset is on a character boundary, its line counts the line breaks before it, and the
line and the column lead back: from the beginning of that line on, behind one character less than
the column says and no line break, stands exactly the text from the offset on. A later offset has a
later line, or a later column on the same line. So the todos of a file stand in the order of their
places, and at the place of each stands the comment with the tag that it has been read of. -/
theorem todos_at_places (text : List Char) :
    (∀ offset, Bytes.IsBoundary text offset → ∃ before rest line,
      text = before ++ rest ∧ byteSize before = offset ∧
      Bytes.positionByOffset text offset = .ok (Position.ofOffset text offset) ∧
      (Position.ofOffset text offset).line = 1 + before.count '\n' ∧
      fromLine (Position.ofOffset text offset).line text = line ++ rest ∧
      line.length + 1 = (Position.ofOffset text offset).column ∧ '\n' ∉ line) ∧
    (∀ p q, Bytes.IsBoundary text p → Bytes.IsBoundary text q → p < q →
      (Position.ofOffset text p).Precedes (Position.ofOffset text q)) ∧
    ∀ (r : TodoReader) (file : String),
      (r.todos file text).Pairwise (fun t u => t.place.Precedes u.place) ∧
      ∀ t ∈ r.todos file text, ∃ word,
        Comment.IsTodoAt ((fromLine t.line text).drop (t.column - 1)) word ∧
        t.assignee = r.assignee word ∧ t.dueDate = (r.dueDate word).toDate? := by
  refine ⟨?_, fun p q hp hq hlt => Position.precedes_ofOffset hp hq hlt, fun r file =>
    ⟨r.pairwise_place_todos file text, fun t ht => r.exists_isTodoAt_of_mem_todos ht⟩⟩
  intro offset hoffset
  obtain ⟨before, rest, rfl, rfl⟩ := Bytes.isBoundary_iff.1 hoffset
  obtain ⟨line, hline, hcolumn, hbreak⟩ := fromLine_after before rest
  refine ⟨before, rest, line, rfl, rfl, Bytes.positionByOffset_append before rest, ?_⟩
  rw [Position.ofOffset_byteSize]
  exact ⟨Nat.add_comm _ _, hline, hcolumn, hbreak⟩

/-- Two comments behind characters of two bytes, the second one right behind a line break. -/
theorem todos_at_places_twoBytes :
    Bytes.IsBoundary "é /* TODO é */\n// TODO".toList 3 ∧
      Bytes.IsBoundary "é /* TODO é */\n// TODO".toList 17 ∧
      Position.ofOffset "é /* TODO é */\n// TODO".toList 3 = ⟨1, 3⟩ ∧
      Position.ofOffset "é /* TODO é */\n// TODO".toList 17 = ⟨2, 1⟩ ∧
      (Position.ofOffset "é /* TODO é */\n// TODO".toList 3).Precedes
        (Position.ofOffset "é /* TODO é */\n// TODO".toList 17) ∧
      ∃ word, Comment.IsTodoAt
        ((fromLine 1 "é /* TODO é */\n// TODO".toList).drop 2) word := by
  have hfirst : Bytes.IsBoundary "é /* TODO é */\n// TODO".toList 3 := by decide +kernel
  have hsecond : Bytes.IsBoundary "é /* TODO é */\n// TODO".toList 17 := by decide +kernel
  obtain ⟨-, hlater, htodos⟩ := todos_at_places "é /* TODO é */\n// TODO".toList
  refine ⟨hfirst, hsecond, by decide +kernel, by decide +kernel,
    hlater 3 17 hfirst hsecond (by decide), ?_⟩
  have htodo := (htodos ⟨[], ⟨[], []⟩, ['@']⟩ "A.java").2 ⟨"unassigned", none, "A.java", 1, 3⟩
  obtain ⟨word, hword, -⟩ := htodo (by cbv; exact .head _)
  exact ⟨word, hword⟩

end TodoAudit
