import Mathlib
import TodoAudit.Proofs.DatePattern.Printing
import TodoAudit.Proofs.DueDate.Announcement
import TodoAudit.Proofs.Text.Trimming

/-!
# Dates that go on behind the window

What stands behind the window is not looked at. So a date can be read of which only the beginning is
in the window, and a number at its end is cut.

`ofComment_before_digit` says when this happens. The text of a date that is found is followed by a
digit only where the text ends with the window. There a digit can follow every date, as any other
text can.
-/

namespace TodoAudit

open Text Text.Decimal

variable {phrases : List (List Char)} {format : DateFormat} {window : Nat}
  {comment phrase before after blanks text follow : List Char} {c : Char} {d : Date}

/-! ## The text that is read -/

/-- Behind the phrase that announces a due date stand `blanks`, then `text`, then `follow`. The text
is what is left by trimming what is in the window. -/
structure IsDueText (phrases : List (List Char)) (window : Nat)
    (comment blanks text follow : List Char) : Prop where
  announced : ∃ phrase before,
    IsAnnounced phrases comment phrase before (blanks ++ text ++ follow)
  leading : ∀ c ∈ blanks, isBlank c = true
  trimmed : IsTrimmed text
  trailing : ∃ more, (blanks ++ text ++ follow).take window = blanks ++ text ++ more ∧
    ∀ c ∈ more, isBlank c = true

theorem IsAnnounced.exists_isDueText (h : IsAnnounced phrases comment phrase before after)
    (window : Nat) : ∃ blanks text follow, IsDueText phrases window comment blanks text follow ∧
      text = trim (after.take window) := by
  obtain ⟨blanks, more, hwindow, hblanks, hmore⟩ := exists_blanks_trim (after.take window)
  have hafter : blanks ++ trim (after.take window) ++ (more ++ after.drop window) = after := by
    rw [← List.append_assoc, ← hwindow, List.take_append_drop]
  refine ⟨blanks, _, more ++ after.drop window, ⟨?_, hblanks, isTrimmed_trim _, more, ?_, hmore⟩,
    rfl⟩
  · rw [hafter]
    exact ⟨_, _, h⟩
  · rw [hafter]
    exact hwindow

namespace IsDueText

theorem trim_eq (h : IsDueText phrases window comment blanks text follow) :
    trim ((blanks ++ text ++ follow).take window) = text := by
  obtain ⟨more, hwindow, hmore⟩ := h.trailing
  rw [hwindow, trim_between_blanks h.trimmed h.leading hmore]

/-- Before a character that is not blank the text ends with the window. -/
theorem length_eq_of_not_isBlank
    (h : IsDueText phrases window comment blanks text (c :: follow)) (hc : isBlank c = false) :
    blanks.length + text.length = window := by
  obtain ⟨more, hwindow, hmore⟩ := h.trailing
  -- what is in the window behind the text is blank and begins with the character, if there is any
  have hprefix : more <+: c :: follow := by
    rw [← List.prefix_append_right_inj (blanks ++ text), ← hwindow]
    exact List.take_prefix _ _
  cases more with
  | nil =>
    have hlength := congrArg List.length hwindow
    simp only [List.length_take, List.length_append, List.length_cons, List.length_nil] at hlength
    omega
  | cons b more =>
    rw [(List.cons_prefix_cons.1 hprefix).1] at hmore
    exact absurd (hmore c List.mem_cons_self) (by simp [hc])

end IsDueText

/-- A text that is written so that it ends with the window can be followed by anything. -/
theorem isDueText_of_length (phrase : List Char) (phrases : List (List Char))
    (htrimmed : IsTrimmed text) (hshort : text.length ≤ window) (follow : List Char) :
    IsDueText (phrase :: phrases) window
      (phrase ++ (List.replicate (window - text.length) ' ' ++ text ++ follow))
      (List.replicate (window - text.length) ' ') text follow where
  announced := ⟨phrase, [], isAnnounced_cons phrase phrases _⟩
  leading := by
    intro c hc
    rw [List.eq_of_mem_replicate hc]
    decide
  trimmed := htrimmed
  trailing := by
    have hlength : (List.replicate (window - text.length) ' ' ++ text).length = window := by
      rw [List.length_append, List.length_replicate]
      omega
    refine ⟨[], ?_, by simp⟩
    rw [List.append_nil, List.take_append_of_le_length hlength.ge,
      List.take_of_length_le hlength.le]

namespace DueDate

/-- A due date is what is read of the trimmed text in the window. -/
theorem ofComment_eq_date_iff_isDueText : ofComment phrases format comment = .date d ↔
    ∃ blanks text follow, IsDueText phrases format.window comment blanks text follow ∧
      format.read? text = some d := by
  rw [ofComment_eq_date_iff]
  constructor
  · rintro ⟨phrase, before, after, h, hread⟩
    obtain ⟨blanks, text, follow, hdue, rfl⟩ := h.exists_isDueText format.window
    exact ⟨blanks, _, follow, hdue, hread⟩
  · rintro ⟨blanks, text, follow, hdue, hread⟩
    obtain ⟨phrase, before, h⟩ := hdue.announced
    refine ⟨phrase, before, _, h, ?_⟩
    rwa [hdue.trim_eq]

/-- A due date is found exactly if it is read of the trimmed text in the window behind the phrase
that announces it. If a digit follows this text, the text ends with the window. Every text that
states a date and fits the window can be written so, and then the date is found whatever follows
it. -/
theorem ofComment_before_digit (phrases : List (List Char)) (format : DateFormat) :
    (∀ comment d, ofComment phrases format comment = .date d ↔ ∃ blanks text follow,
      IsDueText phrases format.window comment blanks text follow ∧ format.read? text = some d) ∧
    (∀ comment blanks text c follow,
      IsDueText phrases format.window comment blanks text (c :: follow) → isDigit c = true →
        blanks.length + text.length = format.window) ∧
    ∀ phrase ∈ phrases.head?, ∀ text d, IsTrimmed text → text.length ≤ format.window →
      format.read? text = some d → ∀ follow, ∃ comment blanks,
        IsDueText phrases format.window comment blanks text follow ∧
          ofComment phrases format comment = .date d := by
  refine ⟨fun _ _ => ofComment_eq_date_iff_isDueText, ?_, ?_⟩
  · intro comment blanks text c follow hdue hc
    exact hdue.length_eq_of_not_isBlank (DatePattern.isBlank_of_isDigit hc)
  · intro phrase hphrase text d htrimmed hshort hread follow
    obtain ⟨others, rfl⟩ := List.head?_eq_some_iff.1 hphrase
    have hdue := isDueText_of_length phrase others htrimmed hshort follow
    exact ⟨_, _, hdue, ofComment_eq_date_iff_isDueText.2 ⟨_, _, _, hdue, hread⟩⟩

/-- A day of the year loses its last digits and is read as another one. -/
theorem ofComment_before_digit_cutDay : ∃ format comment blanks,
    DateFormat.ofPattern "yyyy-D".toList = .ok format ∧
      IsDueText ["due".toList] format.window comment blanks "2024-3".toList "66".toList ∧
      ofComment ["due".toList] format comment =
        .date ⟨2024, 1, 3, by decide, by decide, by decide⟩ ∧
      blanks.length = 1 := by
  have hformat : DateFormat.ofPattern "yyyy-D".toList = .ok ⟨"yyyy-D".toList,
      [.field (.year 4), .text ['-'], .field (.dayOfYear 1)]⟩ := by cbv
  obtain ⟨-, hend, hfollow⟩ := ofComment_before_digit ["due".toList] ⟨"yyyy-D".toList,
    [.field (.year 4), .text ['-'], .field (.dayOfYear 1)]⟩
  obtain ⟨comment, blanks, hdue, hdate⟩ := hfollow "due".toList rfl "2024-3".toList
    ⟨2024, 1, 3, by decide, by decide, by decide⟩ (trim_eq_self_iff.1 (by cbv)) (by decide)
    (by cbv) "66".toList
  refine ⟨_, comment, blanks, hformat, hdue, hdate, ?_⟩
  have hlength : blanks.length + 6 = 7 := hend comment blanks _ '6' ['6'] hdue (by decide)
  omega

/-- A year of five digits is cut to four. -/
theorem ofComment_cutYear : ∃ format, DateFormat.ofPattern "dd.MM.yyyy".toList = .ok format ∧
    ofComment ["due to".toList] format "// TODO due to 10.10.20235".toList =
      .date ⟨2023, 10, 10, by decide, by decide, by decide⟩ ∧
    IsDueText ["due to".toList] format.window "// TODO due to 10.10.20235".toList [' ']
      "10.10.2023".toList ['5'] := by
  have hformat : DateFormat.ofPattern "dd.MM.yyyy".toList = .ok ⟨"dd.MM.yyyy".toList,
      [.field (.day 2), .text ['.'], .field (.month 2), .text ['.'], .field (.year 4)]⟩ := by cbv
  obtain ⟨before, hannounced⟩ := announcement?_eq_some_iff.1
    (by cbv : announcement? ["due to".toList] "// TODO due to 10.10.20235".toList =
      some ("due to".toList, " 10.10.20235".toList))
  have hblank : ∀ c ∈ [' '], isBlank c = true := List.forall_mem_singleton.2 (by decide)
  exact ⟨_, hformat, by cbv, ⟨_, before, hannounced⟩, hblank, trim_eq_self_iff.1 (by cbv),
    [], by cbv, by simp⟩

end DueDate

end TodoAudit
