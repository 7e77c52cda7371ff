import TodoAudit.Proofs.Report.Lines
import TodoAudit.Terminal

/-!
# Styled lines keep their text

Colors say nothing that a line does not say itself (`styled_keeps_line`). Without colors a line is
left as it is. With colors, what is left of it when all escape sequences are deleted is the line
(`unstyled_styled`), whether or not the assignee is picked out in it. In the line about a todo it is
picked out, and it is all that is shown in red or blue (`shows_styled_iff`), even if the line goes
on with the same words.

Both are proved for a text that is painted in one color, with any text behind it
(`unstyled_paint`, `shows_paint_iff`): every escape sequence begins with the escape character and
holds no other one, so none begins inside of another or in a text that is free of that character.
-/

namespace TodoAudit.Terminal

open Text

variable {s t q q' before rest part : List Char} {c : Char} {color color' : Color} {text : String}

/-! ## Escape sequences -/

/-- The escape sequences of which styles are made. -/
def sequences : List (List Char) :=
  ["\x1b[38;5;11m".toList, "\x1b[31m".toList, "\x1b[34m".toList, "\x1b[0m".toList]

/-- The escape sequence that selects the color. -/
def Color.sequence (color : Color) : List Char :=
  ("\x1b[" ++ color.code ++ "m").toList

/-- The escape sequence that ends a style. -/
def reset : List Char := "\x1b[0m".toList

theorem sequence_mem (color : Color) : color.sequence ∈ sequences := by
  cases color <;> decide

theorem reset_mem : reset ∈ sequences := by
  decide

theorem sequence_ne_reset (color : Color) : color.sequence ≠ reset := by
  cases color <;> decide

theorem sequence_inj : color.sequence = color'.sequence ↔ color = color' := by
  cases color <;> cases color' <;> decide

theorem exists_tail_of_mem (h : q ∈ sequences) : ∃ tail, q = '\x1b' :: tail ∧ '\x1b' ∉ tail := by
  simp only [sequences, List.mem_cons, List.not_mem_nil, or_false] at h
  rcases h with rfl | rfl | rfl | rfl <;> exact ⟨_, rfl, by decide⟩

/-- No escape sequence begins another one. -/
theorem append_inj_of_mem (hq : q ∈ sequences) (hq' : q' ∈ sequences) (h : q ++ s = q' ++ t) :
    q = q' ∧ s = t := by
  have hfree : ∀ q ∈ sequences, ∀ q' ∈ sequences, q <+: q' → q = q' := by decide
  have heq : q = q' := by
    rcases List.prefix_or_prefix_of_prefix ⟨s, h⟩ (List.prefix_append q' t) with hpre | hpre
    · exact hfree q hq q' hq' hpre
    · exact (hfree q' hq' q hq hpre).symm
  subst heq
  exact ⟨rfl, List.append_cancel_left h⟩

/-- A character that is not in the front of a text stands behind it. -/
theorem exists_of_append_eq (hc : c ∉ t) (h : t ++ s = before ++ c :: rest) :
    ∃ before', before = t ++ before' ∧ s = before' ++ c :: rest := by
  rcases List.append_eq_append_iff.1 h with ⟨x, hx, hs⟩ | ⟨x, hx, hs⟩
  · exact ⟨x, hx, hs⟩
  · cases x with
    | nil => exact ⟨[], by simpa using hx.symm, by simpa using hs.symm⟩
    | cons d x =>
      obtain rfl : c = d := (List.cons.inj hs).1
      simp [hx] at hc

/-- Behind the beginning of an escape sequence the next one begins behind its end. -/
theorem split_of_mem (hq : q ∈ sequences) (hq' : q' ∈ sequences)
    (h : q ++ s = before ++ (q' ++ rest)) : before = [] ∧ q = q' ∧ s = rest ∨
      ∃ before', before = q ++ before' ∧ s = before' ++ (q' ++ rest) := by
  cases before with
  | nil => exact .inl ⟨rfl, append_inj_of_mem hq hq' h⟩
  | cons d before =>
    obtain ⟨tail, rfl, htail⟩ := exists_tail_of_mem hq
    obtain ⟨tail', rfl, -⟩ := exists_tail_of_mem hq'
    obtain ⟨rfl, hrest⟩ := List.cons.inj h
    obtain ⟨before', rfl, hs⟩ := exists_of_append_eq htail hrest
    exact .inr ⟨before', rfl, hs⟩

/-! ## Deleting escape sequences -/

/-- What follows the escape sequence with which the text begins. -/
def behindSequence? (s : List Char) : Option (List Char) :=
  sequences.findSome? fun q => strip? q s

theorem behindSequence?_eq_some_iff :
    behindSequence? s = some rest ↔ ∃ q ∈ sequences, s = q ++ rest := by
  constructor
  · intro h
    obtain ⟨q, hq, hstrip⟩ := List.exists_of_findSome?_eq_some h
    exact ⟨q, hq, strip?_eq_some_iff.1 hstrip⟩
  · rintro ⟨q, hq, rfl⟩
    cases h : behindSequence? (q ++ rest) with
    | none =>
      have hnone := List.findSome?_eq_none_iff.1 h q hq
      rw [strip?_eq_some_iff.2 rfl] at hnone
      cases hnone
    | some rest' =>
      obtain ⟨q', hq', hstrip⟩ := List.exists_of_findSome?_eq_some h
      rw [(append_inj_of_mem hq hq' (strip?_eq_some_iff.1 hstrip)).2]

theorem behindSequence?_cons_of_ne (h : c ≠ '\x1b') (s : List Char) :
    behindSequence? (c :: s) = none := by
  rw [Option.eq_none_iff_forall_ne_some]
  intro rest hrest
  obtain ⟨q, hq, hs⟩ := behindSequence?_eq_some_iff.1 hrest
  obtain ⟨tail, rfl, -⟩ := exists_tail_of_mem hq
  exact h (List.cons.inj hs).1

theorem length_lt_of_behindSequence? (h : behindSequence? s = some rest) :
    rest.length < s.length := by
  obtain ⟨q, hq, rfl⟩ := behindSequence?_eq_some_iff.1 h
  obtain ⟨tail, rfl, -⟩ := exists_tail_of_mem hq
  simp

/-- The text without its escape sequences, deleted from left to right. -/
def unstyled (s : List Char) : List Char :=
  match _h : behindSequence? s with
  | some rest => unstyled rest
  | none =>
    match s with
    | [] => []
    | c :: s => c :: unstyled s
termination_by s.length
decreasing_by
  · exact length_lt_of_behindSequence? _h
  · simp

theorem unstyled_nil : unstyled [] = [] := by
  rw [unstyled]
  rfl

theorem unstyled_append_of_mem (hq : q ∈ sequences) (s : List Char) :
    unstyled (q ++ s) = unstyled s := by
  have hbehind : behindSequence? (q ++ s) = some s := behindSequence?_eq_some_iff.2 ⟨q, hq, rfl⟩
  rw [unstyled]
  split
  · rename_i rest h
    cases hbehind.symm.trans h
    rfl
  · rename_i h
    cases hbehind.symm.trans h

theorem unstyled_cons_of_ne (h : c ≠ '\x1b') (s : List Char) :
    unstyled (c :: s) = c :: unstyled s := by
  have hbehind := behindSequence?_cons_of_ne h s
  rw [unstyled]
  split
  · rename_i h'
    cases hbehind.symm.trans h'
  · rfl

/-- Nothing is deleted from a text without the escape character. -/
theorem unstyled_append (h : '\x1b' ∉ t) (s : List Char) :
    unstyled (t ++ s) = t ++ unstyled s := by
  induction t with
  | nil => rfl
  | cons c t ih =>
    simp only [List.mem_cons, not_or] at h
    rw [List.cons_append, unstyled_cons_of_ne (Ne.symm h.1), ih h.2, List.cons_append]

theorem toList_paint (color : Color) (text : String) :
    (paint true color text).toList = color.sequence ++ (text.toList ++ reset) := by
  simp [paint, Color.sequence, reset]

theorem unstyled_paint (h : '\x1b' ∉ text.toList) (color : Color) (s : List Char) :
    unstyled ((paint true color text).toList ++ s) = text.toList ++ unstyled s := by
  rw [toList_paint, List.append_assoc, List.append_assoc,
    unstyled_append_of_mem (sequence_mem color), unstyled_append h,
    unstyled_append_of_mem reset_mem]

/-! ## What is shown in a color -/

/-- Somewhere in the text the part is shown in the color: it stands between the escape sequence that
selects the color and the next one that ends a style. -/
def Shows (s : List Char) (color : Color) (part : List Char) : Prop :=
  ∃ before rest after, s = before ++ (color.sequence ++ rest) ∧
    cutAt? reset rest = some (part, after)

theorem not_shows_nil : ¬ Shows [] color part := by
  rintro ⟨before, rest, after, h, -⟩
  obtain ⟨tail, htail, -⟩ := exists_tail_of_mem (sequence_mem color)
  simp [htail] at h

theorem Shows.append_left (h : Shows s color part) (t : List Char) : Shows (t ++ s) color part := by
  obtain ⟨before, rest, after, rfl, hcut⟩ := h
  exact ⟨t ++ before, rest, after, (List.append_assoc _ _ _).symm, hcut⟩

theorem shows_append_iff (h : '\x1b' ∉ t) : Shows (t ++ s) color part ↔ Shows s color part := by
  refine ⟨?_, fun hs => hs.append_left t⟩
  rintro ⟨before, rest, after, hsplit, hcut⟩
  obtain ⟨tail, htail, -⟩ := exists_tail_of_mem (sequence_mem color)
  rw [htail, List.cons_append] at hsplit
  obtain ⟨before', -, hs⟩ := exists_of_append_eq h hsplit
  exact ⟨before', rest, after, by rw [hs, htail, List.cons_append], hcut⟩

theorem shows_reset_append_iff : Shows (reset ++ s) color part ↔ Shows s color part := by
  refine ⟨?_, fun hs => hs.append_left reset⟩
  rintro ⟨before, rest, after, hsplit, hcut⟩
  rcases split_of_mem reset_mem (sequence_mem color) hsplit with ⟨-, heq, -⟩ | ⟨before', -, hs⟩
  · exact absurd heq.symm (sequence_ne_reset color)
  · exact ⟨before', rest, after, hs, hcut⟩

theorem cutAt?_reset (h : '\x1b' ∉ t) (s : List Char) :
    cutAt? reset (t ++ (reset ++ s)) = some (t, s) := by
  obtain ⟨tail, htail, -⟩ := exists_tail_of_mem reset_mem
  rw [cutAt?_eq_some_iff, List.append_assoc]
  refine ⟨rfl, ?_⟩
  intro a b hab
  nth_rewrite 2 [htail] at hab
  rw [List.append_assoc, List.cons_append] at hab
  obtain ⟨a', rfl, -⟩ := exists_of_append_eq h hab
  simp

/-- In front of some text, a painted text without the escape character is one more part that is
shown, in its color. -/
theorem shows_paint_iff (h : '\x1b' ∉ text.toList) (color' : Color) (s : List Char) :
    Shows ((paint true color' text).toList ++ s) color part ↔
      color = color' ∧ part = text.toList ∨ Shows s color part := by
  rw [toList_paint, List.append_assoc, List.append_assoc]
  constructor
  · rintro ⟨before, rest, after, hsplit, hcut⟩
    rcases split_of_mem (sequence_mem color') (sequence_mem color) hsplit with
      ⟨-, heq, rfl⟩ | ⟨before', -, hs⟩
    · rw [cutAt?_reset h] at hcut
      cases hcut
      exact .inl ⟨(sequence_inj.1 heq).symm, rfl⟩
    · have hlater : Shows (text.toList ++ (reset ++ s)) color part :=
        ⟨before', rest, after, hs, hcut⟩
      exact .inr (shows_reset_append_iff.1 ((shows_append_iff h).1 hlater))
  · rintro (⟨rfl, rfl⟩ | hs)
    · exact ⟨[], text.toList ++ (reset ++ s), s, rfl, cutAt?_reset h s⟩
    · exact ((hs.append_left reset).append_left text.toList).append_left color'.sequence

/-! ## Styled lines -/

variable {todo : Todo} {line : String}

/-- The color in which the assignee is picked out. -/
def assigneeColor (todo : Todo) : Color :=
  if todo.assignee = Todo.unassigned then .red else .blue

theorem eq_assigneeColor_iff (h : color ≠ .brightYellow) :
    color = assigneeColor todo ↔ (color = .red ↔ todo.assignee = Todo.unassigned) := by
  unfold assigneeColor
  by_cases hassignee : todo.assignee = Todo.unassigned <;> cases color <;> simp_all

/-- Where the assignee comes right after the opening it is picked out. -/
theorem styled_opening (shown : Bool) (todo : Todo) (rest : String) :
    styled shown todo (opening ++ todo.assignee ++ rest) =
      paint shown .brightYellow opening ++ paint shown (assigneeColor todo) todo.assignee ++
        paint shown .brightYellow rest := by
  have hstrip : strip? (opening.toList ++ todo.assignee.toList)
      (opening ++ todo.assignee ++ rest).toList = some rest.toList := by
    rw [strip?_eq_some_iff, String.toList_append, String.toList_append]
  rw [styled, hstrip]
  simp [assigneeColor]

theorem styled_of_not_opening (h : ∀ rest, line ≠ opening ++ todo.assignee ++ rest)
    (shown : Bool) : styled shown todo line = paint shown .brightYellow line := by
  have hstrip : strip? (opening.toList ++ todo.assignee.toList) line.toList = none := by
    rw [Option.eq_none_iff_forall_ne_some]
    intro rest hrest
    refine h (String.ofList rest) (String.toList_injective ?_)
    simpa using strip?_eq_some_iff.1 hrest
  rw [styled, hstrip]

/-- Without colors a line is left as it is. -/
theorem styled_false (todo : Todo) (line : String) : styled false todo line = line := by
  by_cases h : ∃ rest, line = opening ++ todo.assignee ++ rest
  · obtain ⟨rest, rfl⟩ := h
    rw [styled_opening]
    rfl
  · rw [styled_of_not_opening (not_exists.1 h)]
    rfl

/-- Without its escape sequences a styled line is the line. -/
theorem unstyled_styled (h : '\x1b' ∉ line.toList) :
    unstyled (styled true todo line).toList = line.toList := by
  by_cases hline : ∃ rest, line = opening ++ todo.assignee ++ rest
  · obtain ⟨rest, rfl⟩ := hline
    simp only [String.toList_append, List.mem_append, not_or] at h
    rw [styled_opening, String.toList_append, String.toList_append, List.append_assoc,
      unstyled_paint h.1.1, unstyled_paint h.1.2, ← List.append_nil (paint _ _ rest).toList,
      unstyled_paint h.2, unstyled_nil]
    simp
  · rw [styled_of_not_opening (not_exists.1 hline), ← List.append_nil (paint _ _ line).toList,
      unstyled_paint h, unstyled_nil, List.append_nil]

/-- Of a line that picks out the assignee, nothing else is shown in red or blue. -/
theorem shows_styled_iff {rest : String} (hline : line = opening ++ todo.assignee ++ rest)
    (h : '\x1b' ∉ line.toList) (hcolor : color ≠ .brightYellow) :
    Shows (styled true todo line).toList color part ↔
      part = todo.assignee.toList ∧ (color = .red ↔ todo.assignee = Todo.unassigned) := by
  subst hline
  simp only [String.toList_append, List.mem_append, not_or] at h
  rw [styled_opening, String.toList_append, String.toList_append, List.append_assoc,
    shows_paint_iff h.1.1, shows_paint_iff h.1.2, ← List.append_nil (paint _ _ rest).toList,
    shows_paint_iff h.2, ← eq_assigneeColor_iff hcolor]
  simp [hcolor, not_shows_nil, and_comm]

/-- The line about a todo goes on with the assignee behind the opening, in either mode. -/
theorem exists_rest_of_mem (h : line ∈ [ListMode.line todo, VerifyMode.line todo]) :
    ∃ rest, line = opening ++ todo.assignee ++ rest := by
  have hlineWith : ∀ ending, ∃ rest, todo.lineWith ending = opening ++ todo.assignee ++ rest :=
    fun ending => ⟨" TODO in " ++ todo.location ++ ending, by
      simp only [Todo.lineWith, opening, String.append_assoc]⟩
  simp only [List.mem_cons, List.not_mem_nil, or_false] at h
  rcases h with rfl | rfl
  · rw [ListMode.line_eq]
    exact hlineWith _
  · rw [VerifyMode.line_eq]
    exact hlineWith _

/-- Styles never change what a line says. Without colors it is left as it is, and with colors it is
what is left when the escape sequences are deleted. In a line about a todo, whatever stands in its
path and behind it, the assignee is what is shown in red or blue, and nothing else is: in red
exactly if the todo is unassigned. -/
theorem styled_keeps_line (todo : Todo) :
    (∀ line, styled false todo line = line) ∧
      (∀ line : String, '\x1b' ∉ line.toList →
        unstyled (styled true todo line).toList = line.toList) ∧
      ∀ line ∈ [ListMode.line todo, VerifyMode.line todo],
        (∃ rest, line = opening ++ todo.assignee ++ rest ∧
          styled true todo line = paint true .brightYellow opening ++
            paint true (assigneeColor todo) todo.assignee ++ paint true .brightYellow rest) ∧
        ('\x1b' ∉ line.toList → ∀ color part, color ≠ .brightYellow →
          (Shows (styled true todo line).toList color part ↔ part = todo.assignee.toList ∧
            (color = .red ↔ todo.assignee = Todo.unassigned))) := by
  refine ⟨styled_false todo, fun line h => unstyled_styled h, ?_⟩
  intro line hmem
  obtain ⟨rest, hline⟩ := exists_rest_of_mem hmem
  refine ⟨⟨rest, hline, ?_⟩, fun h color part hcolor => shows_styled_iff hline h hcolor⟩
  rw [hline]
  exact styled_opening true todo rest

/-- The path of the todo goes on like the line of an unassigned one. -/
theorem styled_keeps_line_imitation :
    let todo : Todo := ⟨"ann", none, "Found unassigned TODO in [31mann[0m", 1, 1⟩
    '\x1b' ∉ (VerifyMode.line todo).toList ∧
      unstyled (styled true todo (VerifyMode.line todo)).toList = (VerifyMode.line todo).toList ∧
      Shows (styled true todo (VerifyMode.line todo)).toList .blue "ann".toList ∧
      ∀ part, ¬ Shows (styled true todo (VerifyMode.line todo)).toList .red part := by
  intro todo
  have hfree : '\x1b' ∉ (VerifyMode.line todo).toList := by decide +kernel
  have hassignee : todo.assignee ≠ Todo.unassigned := by decide
  obtain ⟨-, hkept, hshown⟩ := styled_keeps_line todo
  have hiff := (hshown (VerifyMode.line todo) (by simp)).2 hfree
  refine ⟨hfree, hkept _ hfree, ?_, ?_⟩
  · exact (hiff .blue _ (by decide)).2 ⟨rfl, iff_of_false (by decide) hassignee⟩
  · intro part hpart
    exact hassignee (((hiff .red part (by decide)).1 hpart).2.1 rfl)

end TodoAudit.Terminal
