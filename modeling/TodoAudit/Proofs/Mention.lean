import Mathlib
import TodoAudit.Proofs.Bytes.Todos
import TodoAudit.Proofs.Text.Trimming

/-!
# The first mention

`IsFirstMention symbol comment before name after` says where the first mention of a comment stands:
the symbol between `before` and `name`, and the name right behind it, as long as it can be. No
occurrence of the symbol further to the left has a word character behind it; that includes
occurrences that overlap one another or the mention.

`assignee?_isFirstMention` says that the assignee of a comment is the name in its first mention, and
that there is one wherever an occurrence of the symbol has a word character behind it. The search
that looks only where the first character of the symbol stands finds the same.
-/

namespace TodoAudit

open Text

/-- The name is mentioned between `before` and `after`, and nowhere before that is one mentioned. -/
structure IsFirstMention (symbol comment before name after : List Char) : Prop where
  split : comment = before ++ symbol ++ name ++ after
  ne_nil : name ≠ []
  word : ∀ c ∈ name, isWord c = true
  longest : ∀ c, after.head? = some c → isWord c = false
  leftmost : ∀ a c b, comment = a ++ symbol ++ c :: b → isWord c = true → before.length ≤ a.length

variable {symbol comment s before name after rest before' name' after' : List Char} {c : Char}

/-! ## A mention at the beginning of a text -/

theorem mention_eq_ok_iff : mention symbol s = .ok (name, rest) ↔ s = symbol ++ name ++ rest ∧
    name ≠ [] ∧ (∀ c ∈ name, isWord c = true) ∧ ∀ c, rest.head? = some c → isWord c = false := by
  constructor
  · intro h
    rw [mention] at h
    split at h
    · cases h
    · rename_i tail hstrip
      split at h
      · cases h
      · rename_i hne
        cases h
        refine ⟨?_, by simpa using hne, fun c hc => List.mem_takeWhile_imp hc,
          fun c hc => head_dropWhile hc⟩
        rw [strip?_eq_some_iff.1 hstrip, List.append_assoc, List.takeWhile_append_dropWhile]
  · rintro ⟨rfl, hne, hword, hlongest⟩
    have hstrip : strip? symbol (symbol ++ name ++ rest) = some (name ++ rest) :=
      strip?_eq_some_iff.2 (List.append_assoc _ _ _)
    rw [mention, hstrip]
    simp only [takeWhile_append_of_stop hword hlongest, dropWhile_append_of_stop hword hlongest]
    rw [if_neg (by simpa using hne)]

/-- Where a word character stands behind the symbol, there is a mention. -/
theorem not_isWord_of_mention_eq_error {refusal : Refusal}
    (h : mention symbol (symbol ++ c :: rest) = .error refusal) : isWord c = false := by
  by_contra hc
  rw [Bool.not_eq_false] at hc
  have hmention : mention symbol (symbol ++ c :: rest) =
      .ok ((c :: rest).takeWhile isWord, (c :: rest).dropWhile isWord) := by
    refine mention_eq_ok_iff.2 ⟨?_, ?_, fun c hc => List.mem_takeWhile_imp hc,
      fun c hc => head_dropWhile hc⟩
    · rw [List.append_assoc, List.takeWhile_append_dropWhile]
    · rw [List.takeWhile_cons_of_pos hc]
      exact List.cons_ne_nil _ _
  cases h.symm.trans hmention

/-! ## The search -/

namespace IsFirstMention

theorem exists_isWord (h : IsFirstMention symbol comment before name after) :
    ∃ c b, comment = before ++ symbol ++ c :: b ∧ isWord c = true := by
  obtain ⟨c, tail, rfl⟩ := List.exists_cons_of_ne_nil h.ne_nil
  refine ⟨c, tail ++ after, ?_, h.word c List.mem_cons_self⟩
  rw [h.split, List.append_assoc _ (c :: tail), List.cons_append]

theorem length_le (h : IsFirstMention symbol comment before name after)
    (h' : IsFirstMention symbol comment before' name' after') :
    before.length ≤ before'.length := by
  obtain ⟨c, b, hsplit, hc⟩ := h'.exists_isWord
  exact h.leftmost before' c b hsplit hc

/-- There is only one first mention. -/
theorem name_unique (h : IsFirstMention symbol comment before name after)
    (h' : IsFirstMention symbol comment before' name' after') : name = name' := by
  -- neither begins before the other, and each name ends where the run of word characters does
  have hlength := Nat.le_antisymm (h.length_le h') (h'.length_le h)
  have hsplit := h.split.symm.trans h'.split
  simp only [List.append_assoc] at hsplit
  obtain ⟨-, hrest⟩ := List.append_inj hsplit hlength
  have hname := congrArg (List.takeWhile isWord) (List.append_cancel_left hrest)
  rwa [takeWhile_append_of_stop h.word h.longest,
    takeWhile_append_of_stop h'.word h'.longest] at hname

/-- A mention at the beginning of a comment is the first one. -/
theorem of_mention (h : mention symbol comment = .ok (name, after)) :
    IsFirstMention symbol comment [] name after := by
  obtain ⟨hsplit, hne, hword, hlongest⟩ := mention_eq_ok_iff.1 h
  exact ⟨hsplit, hne, hword, hlongest, fun _ _ _ _ _ => Nat.zero_le _⟩

/-- Where no mention begins, the first one is further to the right. -/
theorem cons {refusal : Refusal} (hfirst : IsFirstMention symbol s before name after)
    (h : mention symbol (c :: s) = .error refusal) :
    IsFirstMention symbol (c :: s) (c :: before) name after where
  split := by rw [hfirst.split]; rfl
  ne_nil := hfirst.ne_nil
  word := hfirst.word
  longest := hfirst.longest
  leftmost := by
    intro a d b hsplit hd
    cases a with
    | nil =>
      rw [hsplit] at h
      cases hd.symm.trans (not_isWord_of_mention_eq_error h)
    | cons e a => exact Nat.succ_le_succ (hfirst.leftmost a d b (List.cons.inj hsplit).2 hd)

end IsFirstMention

/-- The search finds the first mention, or no occurrence of the symbol has a word character behind
it. -/
theorem assignee?_spec (hsymbol : symbol ≠ []) (comment : List Char) :
    (∃ before name after, assignee? symbol comment = some name ∧
      IsFirstMention symbol comment before name after) ∨
    assignee? symbol comment = none ∧
      ∀ a c b, comment = a ++ symbol ++ c :: b → isWord c = false := by
  induction comment with
  | nil =>
    refine .inr ⟨rfl, ?_⟩
    intro a c b h
    simp at h
  | cons x s ih =>
    rw [assignee?, if_neg hsymbol]
    cases h : mention symbol (x :: s) with
    | ok eaten => exact .inl ⟨[], eaten.1, eaten.2, rfl, .of_mention h⟩
    | error refusal =>
      rcases ih with ⟨before, name, after, hname, hfirst⟩ | ⟨hnone, hfree⟩
      · exact .inl ⟨x :: before, name, after, hname, hfirst.cons h⟩
      · refine .inr ⟨hnone, ?_⟩
        intro a c b hsplit
        cases a with
        | nil =>
          rw [hsplit] at h
          exact not_isWord_of_mention_eq_error h
        | cons y a => exact hfree a c b (List.cons.inj hsplit).2

/-- A comment has an assignee exactly if the symbol occurs in it with a word character right behind
it. The assignee is the name in the first mention. Both are true of the search that looks only where
the first character of the symbol stands. -/
theorem assignee?_isFirstMention (hsymbol : symbol ≠ []) (comment : List Char) :
    ((∃ name, assignee? symbol comment = some name) ↔
      ∃ a c b, comment = a ++ symbol ++ c :: b ∧ isWord c = true) ∧
    (∀ name, assignee? symbol comment = some name ↔
      ∃ before after, IsFirstMention symbol comment before name after) ∧
    Bytes.assigneeByOffset symbol comment = .ok (assignee? symbol comment) := by
  refine ⟨?_, ?_, Bytes.assigneeByOffset_eq symbol comment⟩
  · constructor
    · rintro ⟨name, hname⟩
      rcases assignee?_spec hsymbol comment with ⟨before, name', after, -, h⟩ | ⟨hnone, -⟩
      · exact ⟨before, h.exists_isWord⟩
      · cases hname.symm.trans hnone
    · rintro ⟨a, c, b, hsplit, hc⟩
      rcases assignee?_spec hsymbol comment with ⟨before, name, after, hname, -⟩ | ⟨-, hfree⟩
      · exact ⟨name, hname⟩
      · cases hc.symm.trans (hfree a c b hsplit)
  · intro name
    rcases assignee?_spec hsymbol comment with ⟨before, name', after, hname', h'⟩ | ⟨hnone, hfree⟩
    · rw [hname']
      constructor
      · rintro ⟨⟩
        exact ⟨before, after, h'⟩
      · rintro ⟨before', after', h⟩
        rw [h'.name_unique h]
    · rw [hnone]
      refine iff_of_false (Option.some_ne_none name).symm ?_
      rintro ⟨before, after, h⟩
      obtain ⟨c, b, hsplit, hc⟩ := h.exists_isWord
      cases hc.symm.trans (hfree before c b hsplit)

/-- Occurrences of the symbol overlap, and one without a name stands before them. -/
theorem assignee?_isFirstMention_overlapping : "@@".toList ≠ [] ∧ ∃ before after,
    IsFirstMention "@@".toList "// TODO @@ @@@damna_2!".toList before "damna_2".toList after :=
  have hsymbol : "@@".toList ≠ [] := by decide
  ⟨hsymbol, ((assignee?_isFirstMention hsymbol _).2.1 _).1 (by cbv)⟩

end TodoAudit
