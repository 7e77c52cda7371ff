import Mathlib
import TodoAudit.Text.Blank

/-!
# Trimmed texts

A text is left as it is by trimming exactly if there is no blank at either end of it
(`trim_eq_self_iff`), and what has been trimmed is such a text (`isTrimmed_trim`).
-/

namespace TodoAudit.Text

variable {c : Char} {s t rest : List Char} {p : Char → Bool}

/-- ASCII characters that are visible are not blank. -/
theorem isBlank_eq_false (h : 0x20 < c.toNat) (h' : c.toNat < 0x85) : isBlank c = false := by
  simp only [isBlank, blankRanges, List.any_eq_false, List.forall_mem_cons, Bool.and_eq_true,
    decide_eq_true_eq, List.not_mem_nil, false_imp_iff, implies_true, and_true]
  omega

theorem dropWhile_eq_self_iff : s.dropWhile p = s ↔ ∀ c, s.head? = some c → p c = false := by
  cases s with
  | nil => simp
  | cons c s =>
    rw [List.dropWhile_cons]
    split
    · rename_i hc
      refine iff_of_false ?_ ?_
      · intro h
        have hle := (List.dropWhile_suffix (l := s) p).length_le
        rw [h, List.length_cons] at hle
        omega
      · intro h
        cases hc.symm.trans (h c rfl)
    · rename_i hc
      simpa using hc

theorem dropWhile_append_of_stop (ht : ∀ c ∈ t, p c = true)
    (hrest : ∀ c, rest.head? = some c → p c = false) : (t ++ rest).dropWhile p = rest := by
  rw [List.dropWhile_append_of_pos ht, dropWhile_eq_self_iff.2 hrest]

/-- A text of one class of characters ends where another character follows. -/
theorem takeWhile_append_of_stop (ht : ∀ c ∈ t, p c = true)
    (hrest : ∀ c, rest.head? = some c → p c = false) : (t ++ rest).takeWhile p = t := by
  have hwhole := List.takeWhile_append_dropWhile (p := p) (l := t ++ rest)
  rw [dropWhile_append_of_stop ht hrest] at hwhole
  exact List.append_cancel_right hwhole

/-- There is no blank at either end of the text. -/
structure IsTrimmed (s : List Char) : Prop where
  head : ∀ c, s.head? = some c → isBlank c = false
  last : ∀ c, s.getLast? = some c → isBlank c = false

theorem head_dropWhile (h : (s.dropWhile p).head? = some c) : p c = false := by
  have hnot := List.head?_dropWhile_not p s
  rw [h] at hnot
  simpa using hnot

/-- What is left by trimming the end begins like what is left by trimming the beginning. -/
theorem trim_isPrefix (s : List Char) : trim s <+: s.dropWhile isBlank := by
  rw [trim, ← List.reverse_suffix, List.reverse_reverse]
  exact List.dropWhile_suffix isBlank

theorem trim_cons_of_isBlank (h : isBlank c = true) (s : List Char) : trim (c :: s) = trim s := by
  rw [trim, trim, List.dropWhile_cons_of_pos h]

theorem isTrimmed_trim (s : List Char) : IsTrimmed (trim s) where
  head := by
    intro c hc
    obtain ⟨rest, hrest⟩ := trim_isPrefix s
    refine head_dropWhile (s := s) ?_
    rw [← hrest, List.head?_append, hc]
    rfl
  last := by
    intro c hc
    rw [trim, List.getLast?_reverse] at hc
    exact head_dropWhile hc

theorem trim_eq_self_iff : trim s = s ↔ IsTrimmed s := by
  constructor
  · intro h
    rw [← h]
    exact isTrimmed_trim s
  · intro h
    rw [trim, dropWhile_eq_self_iff.2 h.head, dropWhile_eq_self_iff.2, List.reverse_reverse]
    intro c hc
    rw [List.head?_reverse] at hc
    exact h.last c hc

/-- Nothing is left by trimming exactly if there is nothing but blanks. -/
theorem trim_eq_nil_iff : trim s = [] ↔ ∀ c ∈ s, isBlank c = true := by
  rw [trim, List.reverse_eq_nil_iff, List.dropWhile_eq_nil_iff]
  simp only [List.mem_reverse]
  constructor
  · intro h
    -- what begins with a character that is not blank does not consist of blanks
    refine List.dropWhile_eq_nil_iff.1 (List.eq_nil_iff_forall_not_mem.2 ?_)
    intro c hc
    obtain ⟨d, rest, hd⟩ := List.exists_cons_of_ne_nil (List.ne_nil_of_mem hc)
    have hhead : isBlank d = false := head_dropWhile (s := s) (by rw [hd]; rfl)
    exact Bool.false_ne_true (hhead.symm.trans (h d (by rw [hd]; exact List.mem_cons_self)))
  · intro h c hc
    exact h c ((List.dropWhile_suffix isBlank).subset hc)

/-- What is left by trimming stands between the blanks that are taken away. -/
theorem exists_blanks_trim (s : List Char) : ∃ front back, s = front ++ trim s ++ back ∧
    (∀ c ∈ front, isBlank c = true) ∧ ∀ c ∈ back, isBlank c = true := by
  set u := s.dropWhile isBlank with hu
  have hback : u = trim s ++ (u.reverse.takeWhile isBlank).reverse := by
    rw [trim, ← hu, ← List.reverse_append, List.takeWhile_append_dropWhile, List.reverse_reverse]
  refine ⟨s.takeWhile isBlank, (u.reverse.takeWhile isBlank).reverse, ?_, ?_, ?_⟩
  · rw [List.append_assoc, ← hback, List.takeWhile_append_dropWhile]
  · intro c hc
    exact List.mem_takeWhile_imp hc
  · intro c hc
    exact List.mem_takeWhile_imp (List.mem_reverse.1 hc)

theorem trim_between_blanks {front back : List Char} (ht : IsTrimmed t)
    (hfront : ∀ c ∈ front, isBlank c = true) (hback : ∀ c ∈ back, isBlank c = true) :
    trim (front ++ t ++ back) = t := by
  rcases eq_or_ne t [] with rfl | hne
  · rw [List.append_nil, trim_eq_nil_iff]
    intro c hc
    exact (List.mem_append.1 hc).elim (hfront c) (hback c)
  · have hhead : ∀ c, (t ++ back).head? = some c → isBlank c = false := by
      rw [List.head?_append_of_ne_nil _ hne]
      exact ht.head
    have hlast : ∀ c, t.reverse.head? = some c → isBlank c = false := by
      rw [List.head?_reverse]
      exact ht.last
    have hback' : ∀ c ∈ back.reverse, isBlank c = true := by
      simpa using hback
    rw [trim, List.append_assoc, dropWhile_append_of_stop hfront hhead, List.reverse_append,
      dropWhile_append_of_stop hback' hlast, List.reverse_reverse]

/-- Blanks behind a text are trimmed with those at its end. -/
theorem trim_append_of_isBlank (ht : ∀ c ∈ t, isBlank c = true) : trim (s ++ t) = trim s := by
  obtain ⟨front, back, hs, hfront, hback⟩ := exists_blanks_trim s
  have hend : ∀ c ∈ back ++ t, isBlank c = true := by
    intro c hc
    exact (List.mem_append.1 hc).elim (hback c) (ht c)
  conv_lhs => rw [hs, List.append_assoc]
  exact trim_between_blanks (isTrimmed_trim s) hfront hend

theorem length_trim_le (s : List Char) : (trim s).length ≤ s.length := by
  rw [trim, List.length_reverse]
  have hle := (List.dropWhile_suffix (l := (s.dropWhile isBlank).reverse) isBlank).length_le
  rw [List.length_reverse] at hle
  exact hle.trans (List.dropWhile_suffix isBlank).length_le

end TodoAudit.Text
