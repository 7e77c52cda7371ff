import TodoAudit.Proofs.Location
import TodoAudit.Proofs.Mention
import TodoAudit.Proofs.Report.Listing

/-!
# Lines of a report

A line about a todo consists of its assignee, its path, its line and column and maybe its due date,
and nothing is escaped in it. It tells the todo all the same (`lines_injective`), whatever the path
is. The assignee of a todo that has been read from a comment consists of word characters
(`TodoReader.isName_assignee`), so the first blank behind it ends it. A written date has no blank in
it, so the last blank of a line ends what stands before the date. A location is unambiguous itself.
-/

namespace TodoAudit

open Text

variable {t u : Todo} {symbol comment name a b x y : List Char} {c : Char}

/-! ## Assignees -/

/-- The text consists of word characters, and of at least one. -/
structure IsName (s : List Char) : Prop where
  ne_nil : s ≠ []
  word : ∀ c ∈ s, isWord c = true

theorem IsName.space_notMem (h : IsName name) : ' ' ∉ name := by
  intro hmem
  exact absurd (h.word ' ' hmem) (by decide)

/-- What is mentioned is a name, also for the empty symbol, which mentions no one. -/
theorem isName_of_assignee? (h : assignee? symbol comment = some name) : IsName name := by
  by_cases hsymbol : symbol = []
  · subst hsymbol
    cases comment <;> simp [assignee?] at h
  · rcases assignee?_spec hsymbol comment with ⟨before, name', after, hname, hfirst⟩ | ⟨hnone, -⟩
    · cases h.symm.trans hname
      exact ⟨hfirst.ne_nil, hfirst.word⟩
    · cases h.symm.trans hnone

theorem isName_unassigned : IsName Todo.unassigned.toList where
  ne_nil := by decide
  word := by simp [Todo.unassigned, isWord]

/-- The assignee that is read from a comment is a name, also if no one is mentioned in it. -/
theorem TodoReader.isName_assignee (r : TodoReader) (comment : List Char) :
    IsName (r.assignee comment).toList := by
  unfold assignee
  cases h : assignee? r.symbol comment with
  | none => exact isName_unassigned
  | some name => simpa using isName_of_assignee? h

/-! ## Dates -/

/-- A written date consists of digits and signs. -/
theorem Date.space_notMem_chars (d : Date) : ' ' ∉ d.chars := by
  have hpadded : ∀ w k, ' ' ∉ Decimal.padded w k := Decimal.notMem_padded (by decide)
  have hdigits : ∀ k, ' ' ∉ Decimal.digits k := Decimal.notMem_digits (by decide)
  unfold chars yearText
  split_ifs <;> simp [hpadded, hdigits]

/-! ## Cutting lines -/

/-- A text can be cut at its first occurrence of a character in one way only. -/
theorem cut_inj (ha : c ∉ a) (hb : c ∉ b) (h : a ++ c :: x = b ++ c :: y) : a = b ∧ x = y := by
  have hcut := cutAt?_append_cons x ha
  rw [h, cutAt?_append_cons y hb] at hcut
  simpa [eq_comm] using hcut

/-- What stands before the words `w` can be told if it has no blank in it and `w` begins with one. -/
theorem append_blank_inj {p q r r' w : String} (hw : w.toList = ' ' :: x) (hp : ' ' ∉ p.toList)
    (hq : ' ' ∉ q.toList) (h : p ++ (w ++ r) = q ++ (w ++ r')) : p = q ∧ r = r' := by
  have hlist := congrArg String.toList h
  simp only [String.toList_append, hw, List.cons_append] at hlist
  obtain ⟨hpq, hrest⟩ := cut_inj hp hq hlist
  exact ⟨String.toList_injective hpq, String.toList_injective (List.append_cancel_left hrest)⟩

/-- What stands behind the words `w` can be told if it has no blank in it and `w` ends with one. -/
theorem blank_append_inj {p q r r' w : String} (hw : w.toList = x ++ [' ']) (hr : ' ' ∉ r.toList)
    (hr' : ' ' ∉ r'.toList) (h : p ++ (w ++ r) = q ++ (w ++ r')) : p = q ∧ r = r' := by
  have hlist := congrArg String.toList h
  simp only [String.toList_append, hw, List.append_assoc, List.singleton_append] at hlist
  rw [← List.append_assoc, ← List.append_assoc] at hlist
  obtain ⟨hfront, hback⟩ := append_cons_inj hr hr' hlist
  exact ⟨String.toList_injective (List.append_cancel_right hfront), String.toList_injective hback⟩

-- a lemma about variables, because it takes long to compare the words of a line
theorem append_append_append (p q r s : String) : p ++ q ++ r ++ s = p ++ (q ++ (r ++ s)) := by
  simp only [String.append_assoc]

/-! ## Lines -/

/-- Todos are the same if they have the same assignee, due date and location. -/
theorem Todo.eq_of_location (hassignee : t.assignee = u.assignee) (hdueDate : t.dueDate = u.dueDate)
    (hlocation : t.location = u.location) : t = u := by
  obtain ⟨hpath, hline, hcolumn⟩ := location_inj.1 hlocation
  obtain ⟨_, _, _, _, _⟩ := t
  obtain ⟨_, _, _, _, _⟩ := u
  simp_all

/-- A line as it begins in both modes, with what it says behind the location. -/
def Todo.lineWith (t : Todo) (ending : String) : String :=
  "Found " ++ t.assignee ++ " TODO in " ++ t.location ++ ending

theorem Todo.lineWith_inj {e e' : String} (ht : IsName t.assignee.toList)
    (hu : IsName u.assignee.toList) (h : t.lineWith e = u.lineWith e') :
    t.assignee = u.assignee ∧ t.location ++ e = u.location ++ e' := by
  have hblank : " TODO in ".toList = ' ' :: "TODO in ".toList := by decide
  simp only [lineWith, String.append_assoc] at h
  exact append_blank_inj hblank ht.space_notMem hu.space_notMem ((String.append_right_inj _).1 h)

namespace ListMode

/-- What a line says about the due date. -/
def ending (due : List Char) : String :=
  " with a due date of " ++ (String.ofList due ++ ".")

theorem line_eq (t : Todo) : line t = t.lineWith (ending (dueText t)) :=
  append_append_append _ _ _ _

/-- The last blank of a line is the one before the date. -/
theorem append_ending_inj {d e : Date} {p q : String}
    (h : p ++ ending d.chars = q ++ ending e.chars) : p = q ∧ d = e := by
  have hblank : " with a due date of ".toList = " with a due date of".toList ++ [' '] := by decide
  have hspace : ∀ d : Date, ' ' ∉ (String.ofList d.chars ++ ".").toList := by
    simp [Date.space_notMem_chars]
  obtain ⟨hfront, hdate⟩ := blank_append_inj hblank (hspace d) (hspace e) h
  have hchars : d.chars = e.chars := String.ofList_injective ((String.append_left_inj _).1 hdate)
  exact ⟨hfront, Date.chars_injective hchars⟩

/-- The line of a todo tells all of it, if it has a due date. -/
theorem line_injOn : Set.InjOn line {t | IsName t.assignee.toList ∧ t.dueDate ≠ none} := by
  rintro t ⟨ht, hdue⟩ u ⟨hu, hdue'⟩ h
  obtain ⟨d, hd⟩ := Option.ne_none_iff_exists'.1 hdue
  obtain ⟨e, he⟩ := Option.ne_none_iff_exists'.1 hdue'
  rw [line_eq, line_eq, dueText_eq hd, dueText_eq he] at h
  obtain ⟨hassignee, hrest⟩ := Todo.lineWith_inj ht hu h
  obtain ⟨hlocation, rfl⟩ := append_ending_inj hrest
  exact Todo.eq_of_location hassignee (hd.trans he.symm) hlocation

end ListMode

namespace VerifyMode

theorem line_eq (t : Todo) : line t = t.lineWith " without a valid due date." :=
  rfl

/-- The line of a todo tells all of it, if it has no due date. -/
theorem line_injOn : Set.InjOn line {t | IsName t.assignee.toList ∧ t.dueDate = none} := by
  rintro t ⟨ht, hdue⟩ u ⟨hu, hdue'⟩ h
  rw [line_eq, line_eq] at h
  obtain ⟨hassignee, hlocation⟩ := Todo.lineWith_inj ht hu h
  exact Todo.eq_of_location hassignee (hdue.trans hdue'.symm)
    ((String.append_left_inj _).1 hlocation)

end VerifyMode

/-- Lines of a report are unambiguous. Every todo that is read from a comment has a name as its
assignee. Of the todos that have one, whatever their paths are, no two with a due date have the same
line in the list mode, and no two without a due date have the same line in the verify mode. -/
theorem lines_injective :
    (∀ (r : TodoReader) (file : String) (text : List Char) (c : Comment),
        IsName (r.todo file text c).assignee.toList) ∧
      Set.InjOn ListMode.line {t | IsName t.assignee.toList ∧ t.dueDate ≠ none} ∧
      Set.InjOn VerifyMode.line {t | IsName t.assignee.toList ∧ t.dueDate = none} :=
  ⟨fun r _ _ c => r.isName_assignee c.text, ListMode.line_injOn, VerifyMode.line_injOn⟩

/-- The path of the one goes on like the line of the other. -/
theorem lines_injective_imitation :
    let due : Date := ⟨2024, 1, 1, by decide, by decide, by decide⟩
    let path := "b:1:1 with a due date of 2024-01-01.\nFound a TODO in b"
    IsName "a".toList ∧ ListMode.line ⟨"a", due, path, 1, 1⟩ ≠ ListMode.line ⟨"a", due, "b", 1, 1⟩ ∧
      VerifyMode.line ⟨"a", none, path, 1, 1⟩ ≠ VerifyMode.line ⟨"a", none, "b", 1, 1⟩ := by
  intro due path
  have hname : IsName "a".toList := ⟨by decide, by simp [isWord]⟩
  refine ⟨hname, ?_, ?_⟩
  · exact lines_injective.2.1.ne ⟨hname, by simp⟩ ⟨hname, by simp⟩ (by simp [path])
  · exact lines_injective.2.2.ne ⟨hname, rfl⟩ ⟨hname, rfl⟩ (by simp [path])

end TodoAudit
