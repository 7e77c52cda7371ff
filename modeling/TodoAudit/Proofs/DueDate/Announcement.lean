import Mathlib
import TodoAudit.Proofs.Text.Occurrence
import TodoAudit.Todo.DueDate

/-!
# Where a due date is looked for

`IsAnnounced phrases comment phrase before after` says that `phrase` is the first of the listed
phrases that occurs in the comment, and that it stands there between `before` and `after` where it
occurs first. The due date of a comment is read in the window behind that phrase and nowhere else
(`ofComment_first_announced`): neither the phrases listed later nor those that do not occur matter,
and neither does what stands behind the window.
-/

namespace TodoAudit

open Text

/-- The phrase announces a due date: it is the first of the listed phrases that occurs in the
comment, and its leftmost occurrence stands between `before` and `after`. -/
structure IsAnnounced (phrases : List (List Char)) (comment phrase before after : List Char) :
    Prop where
  first : ∃ earlier later, phrases = earlier ++ phrase :: later ∧
    ∀ other ∈ earlier, ¬ other <:+: comment
  split : comment = before ++ phrase ++ after
  leftmost : ∀ a b, comment = a ++ phrase ++ b → before.length ≤ a.length

variable {phrases : List (List Char)} {format : DateFormat}
  {comment phrase before after text : List Char} {d : Date}

/-! ## The phrase that counts -/

/-- The phrase that is listed first announces a due date at the beginning of a comment. -/
theorem isAnnounced_cons (phrase : List Char) (phrases : List (List Char)) (after : List Char) :
    IsAnnounced (phrase :: phrases) (phrase ++ after) phrase [] after where
  first := ⟨[], phrases, rfl, by simp⟩
  split := rfl
  leftmost := fun _ _ _ => Nat.zero_le _

namespace DueDate

theorem announcement?_eq_none_iff :
    announcement? phrases comment = none ↔ ∀ phrase ∈ phrases, ¬ phrase <:+: comment := by
  simp only [announcement?, List.findSome?_eq_none_iff, Option.map_eq_none_iff, cutAt?_eq_none_iff]

/-- The search of the list finds the phrase that announces a due date. -/
theorem announcement?_eq_some_iff : announcement? phrases comment = some (phrase, after) ↔
    ∃ before, IsAnnounced phrases comment phrase before after := by
  rw [announcement?, List.findSome?_eq_some_iff]
  constructor
  · rintro ⟨earlier, listed, later, hphrases, hlisted, hearlier⟩
    obtain ⟨⟨before, rest⟩, hcut, heq⟩ := Option.map_eq_some_iff.1 hlisted
    cases heq
    obtain ⟨hsplit, hleftmost⟩ := cutAt?_eq_some_iff.1 hcut
    refine ⟨before, ⟨earlier, later, hphrases, ?_⟩, hsplit, hleftmost⟩
    intro other hother
    exact cutAt?_eq_none_iff.1 (Option.map_eq_none_iff.1 (hearlier other hother))
  · rintro ⟨before, ⟨earlier, later, hphrases, hearlier⟩, hsplit, hleftmost⟩
    refine ⟨earlier, phrase, later, hphrases, ?_, ?_⟩
    · rw [cutAt?_eq_some_iff.2 ⟨hsplit, hleftmost⟩, Option.map_some]
    · intro other hother
      rw [cutAt?_eq_none_iff.2 (hearlier other hother), Option.map_none]

/-- Phrases that do not occur in the comment do not matter. -/
theorem announcement?_filter (phrases : List (List Char)) (comment : List Char) :
    announcement? (phrases.filter (occurs · comment)) comment = announcement? phrases comment := by
  induction phrases with
  | nil => rfl
  | cons phrase phrases ih =>
    rw [List.filter_cons]
    cases hcut : cutAt? phrase comment with
    | none =>
      rw [occurs, hcut, Option.isSome_none, if_neg Bool.false_ne_true, ih]
      simp only [announcement?, List.findSome?_cons, hcut, Option.map_none]
    | some cut =>
      rw [occurs, hcut, Option.isSome_some, if_pos rfl]
      simp only [announcement?, List.findSome?_cons, hcut, Option.map_some]

/-- Phrases that are listed behind one that occurs do not matter. -/
theorem announcement?_append_cons (h : phrase <:+: comment)
    (earlier later later' : List (List Char)) :
    announcement? (earlier ++ phrase :: later) comment =
      announcement? (earlier ++ phrase :: later') comment := by
  rw [announcement?, announcement?, List.findSome?_append, List.findSome?_append,
    List.findSome?_cons, List.findSome?_cons]
  cases hcut : cutAt? phrase comment with
  | none => exact absurd h (cutAt?_eq_none_iff.1 hcut)
  | some cut => rfl

theorem ofComment_congr {phrases' : List (List Char)}
    (h : announcement? phrases' comment = announcement? phrases comment) (format : DateFormat) :
    ofComment phrases' format comment = ofComment phrases format comment := by
  rw [ofComment, ofComment, h]

/-! ## What is read behind it -/

theorem ofComment_eq_missing_iff :
    ofComment phrases format comment = .missing ↔ ∀ phrase ∈ phrases, ¬ phrase <:+: comment := by
  rw [← announcement?_eq_none_iff, ofComment]
  cases announcement? phrases comment with
  | none => exact iff_of_true rfl rfl
  | some announced =>
    refine iff_of_false ?_ (Option.some_ne_none announced)
    dsimp only
    split <;> exact DueDate.noConfusion

end DueDate

namespace IsAnnounced

theorem isInfix (h : IsAnnounced phrases comment phrase before after) : phrase <:+: comment :=
  ⟨before, after, h.split.symm⟩

/-- What is read is the window behind the phrase, without the blanks at its ends. -/
theorem ofComment_eq (h : IsAnnounced phrases comment phrase before after) (format : DateFormat) :
    DueDate.ofComment phrases format comment =
      match format.read? (trim (after.take format.window)) with
      | some d => .date d
      | none => .unreadable phrase (trim (after.take format.window)) := by
  have hannounced := DueDate.announcement?_eq_some_iff.2 ⟨before, h⟩
  cases hread : format.read? (trim (after.take format.window)) with
  | some d => simp only [DueDate.ofComment, hannounced, hread]
  | none => simp only [DueDate.ofComment, hannounced, hread]

theorem ofComment_eq_date_iff (h : IsAnnounced phrases comment phrase before after) :
    DueDate.ofComment phrases format comment = .date d ↔
      format.read? (trim (after.take format.window)) = some d := by
  rw [h.ofComment_eq]
  cases format.read? (trim (after.take format.window)) <;> simp

theorem ofComment_eq_unreadable_iff (h : IsAnnounced phrases comment phrase before after)
    {shown : List Char} :
    DueDate.ofComment phrases format comment = .unreadable shown text ↔
      shown = phrase ∧ text = trim (after.take format.window) ∧ format.read? text = none := by
  rw [h.ofComment_eq]
  constructor
  · intro heq
    split at heq
    · cases heq
    · rename_i hnone
      cases heq
      exact ⟨rfl, rfl, hnone⟩
  · rintro ⟨rfl, rfl, hnone⟩
    rw [hnone]

/-- What stands in front of the phrase and behind the window does not matter. -/
theorem ofComment_congr {phrases' : List (List Char)} {comment' before' after' : List Char}
    (h : IsAnnounced phrases comment phrase before after)
    (h' : IsAnnounced phrases' comment' phrase before' after')
    (hwindow : after'.take format.window = after.take format.window) :
    DueDate.ofComment phrases' format comment' = DueDate.ofComment phrases format comment := by
  rw [h.ofComment_eq, h'.ofComment_eq, hwindow]

end IsAnnounced

/-- A due date is what is read in the window behind the phrase that announces it. -/
theorem DueDate.ofComment_eq_date_iff : ofComment phrases format comment = .date d ↔
    ∃ phrase before after, IsAnnounced phrases comment phrase before after ∧
      format.read? (trim (after.take format.window)) = some d := by
  constructor
  · intro hdate
    cases hannounced : announcement? phrases comment with
    | none => simp [ofComment, hannounced] at hdate
    | some announced =>
      obtain ⟨phrase, after⟩ := announced
      obtain ⟨before, h⟩ := announcement?_eq_some_iff.1 hannounced
      exact ⟨phrase, before, after, h, h.ofComment_eq_date_iff.1 hdate⟩
  · rintro ⟨phrase, before, after, h, hread⟩
    exact h.ofComment_eq_date_iff.2 hread

/-- A comment has no due date to look for exactly if none of the phrases occurs in it. If one does,
there is a phrase that announces the due date, and the due date is the date that is read in the
window behind it, or if there is none, the text that is no date. It is the same by any other list in
which the same phrases occur in the same order, by any other phrases behind the one that counts, and
in any other comment with the same window behind that phrase. -/
theorem DueDate.ofComment_first_announced (phrases : List (List Char)) (format : DateFormat)
    (comment : List Char) :
    (ofComment phrases format comment = .missing ↔ ∀ phrase ∈ phrases, ¬ phrase <:+: comment) ∧
      ((∃ phrase ∈ phrases, phrase <:+: comment) →
        ∃ phrase before after, IsAnnounced phrases comment phrase before after) ∧
      (∀ phrases', phrases'.filter (occurs · comment) = phrases.filter (occurs · comment) →
        ofComment phrases' format comment = ofComment phrases format comment) ∧
      ∀ phrase before after, IsAnnounced phrases comment phrase before after →
        (∀ d, ofComment phrases format comment = .date d ↔
          format.read? (trim (after.take format.window)) = some d) ∧
        (∀ shown text, ofComment phrases format comment = .unreadable shown text ↔
          shown = phrase ∧ text = trim (after.take format.window) ∧ format.read? text = none) ∧
        (∀ earlier later later', phrases = earlier ++ phrase :: later →
          ofComment (earlier ++ phrase :: later') format comment =
            ofComment phrases format comment) ∧
        ∀ comment' after', IsAnnounced phrases comment' phrase before after' →
          after'.take format.window = after.take format.window →
          ofComment phrases format comment' = ofComment phrases format comment := by
  refine ⟨ofComment_eq_missing_iff, ?_, ?_, ?_⟩
  · rintro ⟨phrase, hmem, hoccurs⟩
    cases hannounced : announcement? phrases comment with
    | none => exact absurd hoccurs (announcement?_eq_none_iff.1 hannounced phrase hmem)
    | some announced =>
      obtain ⟨before, h⟩ := announcement?_eq_some_iff.1 hannounced
      exact ⟨_, before, _, h⟩
  · intro phrases' hfilter
    refine ofComment_congr ?_ format
    rw [← announcement?_filter phrases', hfilter, announcement?_filter]
  · intro phrase before after h
    refine ⟨fun d => h.ofComment_eq_date_iff, fun shown text => h.ofComment_eq_unreadable_iff, ?_,
      fun comment' after' h' hwindow => h.ofComment_congr h' hwindow⟩
    rintro earlier later later' rfl
    exact ofComment_congr (announcement?_append_cons h.isInfix earlier later' later) format

/-- The phrase that is listed first counts, though no date follows it and another phrase with a date
stands in the comment. Its window ends inside that other phrase. -/
theorem DueDate.ofComment_first_announced_noDate :
    ofComment ["deadline".toList, "due to".toList] ⟨"dd.MM.yyyy".toList, [.field (.day 2),
        .text ['.'], .field (.month 2), .text ['.'], .field (.year 4)]⟩
        "// TODO: deadline unknown, due to 10.10.2023".toList =
      .unreadable "deadline".toList "unknown, d".toList := by
  obtain ⟨before, h⟩ := announcement?_eq_some_iff.1
    (by cbv : announcement? ["deadline".toList, "due to".toList]
        "// TODO: deadline unknown, due to 10.10.2023".toList =
      some ("deadline".toList, " unknown, due to 10.10.2023".toList))
  obtain ⟨-, -, -, hread⟩ := ofComment_first_announced ["deadline".toList, "due to".toList]
    ⟨"dd.MM.yyyy".toList, [.field (.day 2), .text ['.'], .field (.month 2), .text ['.'],
      .field (.year 4)]⟩ "// TODO: deadline unknown, due to 10.10.2023".toList
  exact ((hread _ before _ h).2.1 _ _).2 ⟨rfl, by cbv, by cbv⟩

end TodoAudit
