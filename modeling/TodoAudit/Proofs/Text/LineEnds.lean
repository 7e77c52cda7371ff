import TodoAudit.Proofs.Text.Lines
import TodoAudit.Proofs.Text.Trimming

/-!
# Line ends of two characters

`withReturns` puts a carriage return in front of every line break of a text. A mark without either
of the two characters is found where it was (`strip?_withReturns`, `cutAt?_withReturns`), and the
position behind a text stays the same (`Position.after_withReturns`). A character behind a text that
does not occur in the mark hides no mark and makes none (`cutAt?_concat`).
-/

namespace TodoAudit.Text

variable {mark s t : List Char} {c : Char} {p : Char → Bool}

/-! ## A carriage return before every line break -/

/-- The text with a carriage return before every line break. -/
def withReturns (s : List Char) : List Char :=
  s.flatMap fun c => if c = '\n' then ['\r', '\n'] else [c]

@[simp] theorem withReturns_nil : withReturns [] = [] := rfl

@[simp] theorem withReturns_break (s : List Char) :
    withReturns ('\n' :: s) = '\r' :: '\n' :: withReturns s := rfl

theorem withReturns_cons_of_ne (h : c ≠ '\n') (s : List Char) :
    withReturns (c :: s) = c :: withReturns s := by
  rw [withReturns, List.flatMap_cons, if_neg h]
  rfl

@[simp] theorem withReturns_append (s t : List Char) :
    withReturns (s ++ t) = withReturns s ++ withReturns t :=
  List.flatMap_append

/-- A text of one line stays as it is. -/
theorem withReturns_eq_self (h : '\n' ∉ s) : withReturns s = s := by
  induction s with
  | nil => rfl
  | cons c s ih =>
    rw [List.mem_cons, not_or] at h
    rw [withReturns_cons_of_ne (Ne.symm h.1), ih h.2]

/-- Nothing changes in front of the first character that is not of the class. -/
theorem takeWhile_withReturns (hreturn : p '\r' = false) (hbreak : p '\n' = false)
    (s : List Char) : (withReturns s).takeWhile p = s.takeWhile p := by
  induction s with
  | nil => rfl
  | cons c s ih =>
    by_cases hc : c = '\n'
    · rw [hc, withReturns_break, List.takeWhile_cons_of_neg (by simp [hreturn]),
        List.takeWhile_cons_of_neg (by simp [hbreak])]
    · rw [withReturns_cons_of_ne hc, List.takeWhile_cons, List.takeWhile_cons, ih]

/-! ## The first line -/

/-- What a line has at its end if a line break follows it. -/
def lineEnd (rest : List Char) : List Char :=
  if rest = [] then [] else ['\r']

/-- What a carriage return behind a text does not change, its line end does not change. -/
theorem append_lineEnd {α : Type} {f : List Char → α} (h : f (s ++ ['\r']) = f s)
    (rest : List Char) : f (s ++ lineEnd rest) = f s := by
  rw [lineEnd]
  split
  · rw [List.append_nil]
  · exact h

/-- The first line ends with a carriage return now, unless the text ends with it. -/
theorem firstLine_withReturns (s : List Char) : ∃ rest,
    withReturns (s.dropWhile (· ≠ '\n')) = lineEnd (s.dropWhile (· ≠ '\n')) ++ rest ∧
    (withReturns s).takeWhile (· ≠ '\n') =
      s.takeWhile (· ≠ '\n') ++ lineEnd (s.dropWhile (· ≠ '\n')) ∧
    (withReturns s).dropWhile (· ≠ '\n') = rest := by
  have hline : ∀ c ∈ s.takeWhile (· ≠ '\n'), decide (c ≠ '\n') = true := fun c hc =>
    List.mem_takeWhile_imp (p := (· ≠ '\n')) hc
  have hself : withReturns (s.takeWhile (· ≠ '\n')) = s.takeWhile (· ≠ '\n') :=
    withReturns_eq_self fun h => by simpa using hline _ h
  have hsplit : withReturns s =
      s.takeWhile (· ≠ '\n') ++ withReturns (s.dropWhile (· ≠ '\n')) := by
    conv_lhs => rw [← List.takeWhile_append_dropWhile (p := (· ≠ '\n')) (l := s),
      withReturns_append, hself]
  cases hrest : s.dropWhile (· ≠ '\n') with
  | nil =>
    rw [hrest, withReturns_nil] at hsplit
    refine ⟨[], rfl, ?_, ?_⟩
    · rw [hsplit, takeWhile_append_of_stop hline (by simp), lineEnd, if_pos rfl, List.append_nil]
    · rw [hsplit, dropWhile_append_of_stop hline (by simp)]
  | cons x tail =>
    have hx : x = '\n' := by
      simpa using head_dropWhile (s := s) (p := (· ≠ '\n')) (by rw [hrest]; rfl)
    subst hx
    have hreturn : ∀ c ∈ s.takeWhile (· ≠ '\n') ++ ['\r'], decide (c ≠ '\n') = true := by
      intro c hc
      rcases List.mem_append.1 hc with hc | hc
      · exact hline c hc
      · rw [List.mem_singleton.1 hc]
        rfl
    rw [hrest, withReturns_break, List.append_cons] at hsplit
    refine ⟨'\n' :: withReturns tail, rfl, ?_, ?_⟩
    · rw [hsplit, takeWhile_append_of_stop hreturn (by simp), lineEnd, if_neg (by simp)]
    · rw [hsplit, dropWhile_append_of_stop hreturn (by simp)]

/-! ## Marks -/

theorem strip?_withReturns (hreturn : '\r' ∉ mark) (hbreak : '\n' ∉ mark) (s : List Char) :
    strip? mark (withReturns s) = (strip? mark s).map withReturns := by
  induction mark generalizing s with
  | nil => rfl
  | cons a mark ih =>
    rw [List.mem_cons, not_or] at hreturn hbreak
    cases s with
    | nil => rfl
    | cons c s =>
      by_cases hc : c = '\n'
      · rw [hc, withReturns_break, strip?, strip?, if_neg (Ne.symm hreturn.1),
          if_neg (Ne.symm hbreak.1), Option.map_none]
      · rw [withReturns_cons_of_ne hc, strip?, strip?, ih hreturn.2 hbreak.2]
        split <;> rfl

/-- What begins with a mark has begun with it before. -/
theorem exists_of_withReturns_eq_append (hreturn : '\r' ∉ mark) (hbreak : '\n' ∉ mark)
    (h : withReturns s = mark ++ t) : ∃ rest, s = mark ++ rest ∧ withReturns rest = t := by
  have hstrip := strip?_withReturns hreturn hbreak s
  rw [strip?_eq_some_iff.2 h, eq_comm, Option.map_eq_some_iff] at hstrip
  obtain ⟨rest, hrest, ht⟩ := hstrip
  exact ⟨rest, strip?_eq_some_iff.1 hrest, ht⟩

/-- The leftmost mark stands where it was. -/
theorem cutAt?_withReturns (hmark : mark ≠ []) (hreturn : '\r' ∉ mark) (hbreak : '\n' ∉ mark)
    (s : List Char) : cutAt? mark (withReturns s) =
      (cutAt? mark s).map (Prod.map withReturns withReturns) := by
  obtain ⟨a, mark, rfl⟩ := List.exists_cons_of_ne_nil hmark
  have hstop : ∀ c ∉ a :: mark, ∀ s, strip? (a :: mark) (c :: s) = none := by
    intro c hc s
    rw [List.mem_cons, not_or] at hc
    exact if_neg (Ne.symm hc.1)
  induction s with
  | nil => rfl
  | cons c s ih =>
    by_cases hc : c = '\n'
    · subst hc
      rw [withReturns_break, cutAt?_cons, hstop _ hreturn, cutAt?_cons, hstop _ hbreak, cutAt?_cons,
        hstop _ hbreak, ih]
      cases cutAt? (a :: mark) s <;> rfl
    · have hstrip := strip?_withReturns hreturn hbreak (c :: s)
      rw [withReturns_cons_of_ne hc] at hstrip ⊢
      rw [cutAt?_cons, cutAt?_cons, hstrip, ih]
      cases strip? (a :: mark) (c :: s) with
      | some after => rfl
      | none =>
        cases cutAt? (a :: mark) s with
        | none => rfl
        | some cut => simp [withReturns_cons_of_ne hc]

theorem occurs_withReturns (hmark : mark ≠ []) (hreturn : '\r' ∉ mark) (hbreak : '\n' ∉ mark)
    (s : List Char) : occurs mark (withReturns s) = occurs mark s := by
  rw [occurs, occurs, cutAt?_withReturns hmark hreturn hbreak, Option.isSome_map]

/-! ## One more character behind a text -/

theorem strip?_concat (hc : c ∉ mark) (s : List Char) :
    strip? mark (s ++ [c]) = (strip? mark s).map (· ++ [c]) := by
  induction mark generalizing s with
  | nil => rfl
  | cons a mark ih =>
    rw [List.mem_cons, not_or] at hc
    cases s with
    | nil => exact if_neg (Ne.symm hc.1)
    | cons d s =>
      rw [List.cons_append, strip?, strip?, ih hc.2]
      split <;> rfl

theorem cutAt?_concat (hc : c ∉ mark) (s : List Char) :
    cutAt? mark (s ++ [c]) = (cutAt? mark s).map (Prod.map id (· ++ [c])) := by
  cases hcut : cutAt? mark s with
  | some cut => exact cutAt?_append hcut [c]
  | none =>
    rw [Option.map_none]
    rw [cutAt?_eq_none_iff] at hcut ⊢
    -- a mark that ends behind the text has its last character there
    rw [List.infix_concat_iff, List.suffix_concat_iff]
    rintro ((rfl | ⟨t, rfl, -⟩) | hin)
    · exact hcut (List.nil_infix)
    · exact hc (by simp)
    · exact hcut hin

theorem occurs_concat (hc : c ∉ mark) (s : List Char) :
    occurs mark (s ++ [c]) = occurs mark s := by
  rw [occurs, occurs, cutAt?_concat hc, Option.isSome_map]

theorem takeWhile_concat (hc : p c = false) (s : List Char) :
    (s ++ [c]).takeWhile p = s.takeWhile p := by
  rw [List.takeWhile_append]
  split
  · rename_i hall
    rw [List.takeWhile_cons_of_neg (by simp [hc]), List.append_nil]
    exact ((List.takeWhile_prefix p).eq_of_length hall).symm
  · rfl

/-! ## Positions -/

/-- A character behind a text is the next one of its line, unless it ends the line. -/
theorem Position.after_concat (s : List Char) (c : Char) : Position.after (s ++ [c]) =
    if c = '\n' then ⟨(Position.after s).line + 1, 1⟩
    else ⟨(Position.after s).line, (Position.after s).column + 1⟩ := by
  rw [Position.after, List.count_append, List.reverse_append, List.reverse_singleton,
    List.singleton_append]
  split
  · rename_i hc
    rw [hc, List.takeWhile_cons_of_neg (by simp)]
    rfl
  · rename_i hc
    rw [List.takeWhile_cons_of_pos (by simpa using hc), List.count_singleton,
      if_neg (by simpa using hc)]
    rfl

theorem Position.after_withReturns (s : List Char) :
    Position.after (withReturns s) = Position.after s := by
  induction s using List.reverseRecOn with
  | nil => rfl
  | append_singleton s c ih =>
    rw [withReturns_append, Position.after_concat s]
    by_cases hc : c = '\n'
    · rw [hc, withReturns_break, withReturns_nil, List.append_cons, Position.after_concat,
        Position.after_concat, ih]
      rfl
    · rw [withReturns_cons_of_ne hc, withReturns_nil, Position.after_concat, ih]

end TodoAudit.Text
