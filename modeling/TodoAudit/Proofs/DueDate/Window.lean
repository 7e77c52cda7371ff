import Mathlib
import TodoAudit.Proofs.DatePattern.Printing
import TodoAudit.Proofs.DueDate.Announcement
import TodoAudit.Proofs.Text.Trimming

/-!
# Dates that are longer than the window

The window behind a due phrase has room for a blank and for as many characters as the pattern has.
A date that is written in more characters is cut, though the format would read the whole of it
(`ofComment_within_window`).

What is left of it is not read as the same date, for no written form of a date begins another one
(`Renders.eq_nil_or_zeros`). There is one exception: year zero can be written in any number of
zeros, so it can be cut at the end of the text.
-/

namespace TodoAudit

open Text Text.Decimal

namespace DatePattern

variable {d : Date} {letter : Char} {count most : Nat} {item : Item} {items : List Item}
  {word rest word' rest' text more : List Char}

/-! ## Written forms that begin other ones -/

/-- Of the numbers with room for more digits, only a year is ever zero. -/
theorem year_eq_zero_of_numberOf (hmost : mostDigits? letter count = some most)
    (hroom : count < most) (h : numberOf d letter count = 0) : d.year = 0 := by
  have hmonth := d.month_mem.1
  have hday := d.day_mem.1
  unfold mostDigits? at hmost
  unfold numberOf at h
  split_ifs at hmost h with hyear htwo hmonthLetter hcount hdayLetter hdayOfYear <;> cases hmost
  · omega
  · exact h
  · omega
  · omega
  · rw [Date.dayOfYear] at h
    omega

theorem Writes.ne_nil (hknown : item.IsKnown) (h : Writes d item word rest) : word ≠ [] := by
  cases item with
  | literal t => rwa [writes_literal_iff.1 h]
  | quote => simp [writes_quote_iff.1 h]
  | field letter count =>
    refine List.ne_nil_of_length_pos ?_
    cases hmost : mostDigits? letter count with
    | some most =>
      exact (le_mostDigits hknown hmost).1.trans_le (numeral_of_writes hmost h).least_le
    | none =>
      rw [eq_nameOf_of_writes hmost h]
      exact Nat.lt_of_lt_of_le (by decide) (nameOf_spec d letter count).2

/-- Nothing is written only for no items. -/
theorem Renders.eq_nil (hknown : ∀ item ∈ items, item.IsKnown) (h : Renders d items []) :
    items = [] := by
  cases items with
  | nil => rfl
  | cons item items =>
    obtain ⟨word, rest, heq, hword, -⟩ := renders_cons_iff.1 h
    exact absurd (List.append_eq_nil_iff.1 heq.symm).1
      (hword.ne_nil (hknown item List.mem_cons_self))

/-- When a text goes on behind the word for an item, the item is written in the same word there, or
the text ended with a year zero, and more zeros follow. -/
theorem Writes.eq_or_zeros (h : Writes d item word rest) (h' : Writes d item word' rest')
    (heq : word ++ (rest ++ more) = word' ++ rest') :
    word' = word ∨ rest = [] ∧ d.year = 0 ∧
      ∃ zeros, word' = word ++ zeros ∧ ∀ c ∈ zeros, c = '0' := by
  cases item with
  | literal t => exact .inl ((writes_literal_iff.1 h').trans (writes_literal_iff.1 h).symm)
  | quote => exact .inl ((writes_quote_iff.1 h').trans (writes_quote_iff.1 h).symm)
  | field letter count =>
    cases hmost : mostDigits? letter count with
    | none =>
      exact .inl ((eq_nameOf_of_writes hmost h').trans (eq_nameOf_of_writes hmost h).symm)
    | some most =>
      have hnumeral := numeral_of_writes hmost h
      refine (hnumeral.eq_or_zeros (numeral_of_writes hmost h') heq).imp_right ?_
      rintro ⟨hrest, hroom, hzero, hzeros⟩
      have hcount : count < most := hnumeral.least_le.trans_lt hroom
      exact ⟨hrest, year_eq_zero_of_numberOf hmost hcount hzero, hzeros⟩

/-- No written form of a date begins another one by the same pattern, but for more zeros at the end,
in year zero. -/
theorem Renders.eq_nil_or_zeros (hknown : ∀ item ∈ items, item.IsKnown) (h : Renders d items text)
    (h' : Renders d items (text ++ more)) : more = [] ∨ d.year = 0 ∧ ∀ c ∈ more, c = '0' := by
  induction h with
  | nil => exact .inl (renders_nil_iff.1 h')
  | @cons item items word rest hword hrest ih =>
    rw [List.forall_mem_cons] at hknown
    obtain ⟨word', rest', heq, hword', hrest'⟩ := renders_cons_iff.1 h'
    rw [List.append_assoc] at heq
    rcases hword.eq_or_zeros hword' heq with rfl | ⟨rfl, hyear, zeros, rfl, hzeros⟩
    · refine ih hknown.2 ?_
      rwa [List.append_cancel_left heq]
    · -- nothing is written for the items that are left, so only the zeros have been added
      rw [hrest.eq_nil hknown.2, renders_nil_iff] at hrest'
      rw [hrest', List.nil_append, List.append_nil] at heq
      rw [List.append_cancel_left heq]
      exact .inr ⟨hyear, hzeros⟩

end DatePattern

open DatePattern

variable {phrases : List (List Char)} {pattern comment phrase before text : List Char}
  {format : DateFormat} {d : Date}

/-! ## The window -/

/-- What is left in the window of a text behind a blank is the beginning of the text, without the
blanks at the end. -/
theorem exists_trim_window (htrimmed : IsTrimmed text) (n : Nat) :
    ∃ more, text.take n = trim ((' ' :: text).take (n + 1)) ++ more := by
  rw [List.take_succ_cons, trim_cons_of_isBlank (by decide)]
  obtain ⟨more, hmore⟩ := trim_isPrefix (text.take n)
  refine ⟨more, ?_⟩
  rw [hmore, dropWhile_eq_self_iff.2]
  intro c hc
  rw [List.head?_take] at hc
  split at hc
  · cases hc
  · exact htrimmed.head c hc

/-- A date that is written behind a due phrase and a blank, up to the end of the comment, is found
if it is written in no more characters than the pattern has. If it is written in more, it is not
found, unless it is in year zero and only zeros do not fit. -/
theorem DueDate.ofComment_within_window (hformat : DateFormat.ofPattern pattern = .ok format)
    (htrimmed : IsTrimmed text) (hread : format.read? text = some d)
    (h : IsAnnounced phrases comment phrase before (' ' :: text)) :
    (text.length ≤ pattern.length → ofComment phrases format comment = .date d) ∧
      (ofComment phrases format comment = .date d → text.length ≤ pattern.length ∨
        d.year = 0 ∧ ∀ c ∈ text.drop pattern.length, c = '0') := by
  rw [h.ofComment_eq_date_iff, DateFormat.window, DateFormat.pattern_of_ofPattern hformat]
  constructor
  · intro hshort
    rwa [List.take_of_length_le (by simpa using hshort), trim_cons_of_isBlank (by decide),
      trim_eq_self_iff.2 htrimmed]
  · intro hcut
    obtain ⟨items, hitems, -⟩ := DateFormat.exists_items_of_ofPattern hformat
    obtain ⟨more, hmore⟩ := exists_trim_window htrimmed pattern.length
    have hwhole : text = trim ((' ' :: text).take (pattern.length + 1)) ++
        (more ++ text.drop pattern.length) := by
      rw [← List.append_assoc, ← hmore, List.take_append_drop]
    rw [DateFormat.read?_iff_renders hformat hitems] at hread hcut
    rw [hwhole] at hread
    refine (hcut.eq_nil_or_zeros (isKnown_of_ofPattern hformat hitems) hread).imp ?_ ?_
    · intro hnil
      exact List.drop_eq_nil_iff.1 (List.append_eq_nil_iff.1 hnil).2
    · rintro ⟨hyear, hzeros⟩
      exact ⟨hyear, fun c hc => hzeros c (List.mem_append_right more hc)⟩

/-- A day and a month in one digit each fit the window. -/
theorem DueDate.ofComment_within_window_shortDay :
    ∃ format, DateFormat.ofPattern "d.M.yyyy".toList = .ok format ∧
      ofComment ["due to".toList] format "// TODO due to 1.2.2023".toList =
        .date ⟨2023, 2, 1, by decide, by decide, by decide⟩ := by
  have hformat : DateFormat.ofPattern "d.M.yyyy".toList = .ok ⟨"d.M.yyyy".toList,
      [.field (.day 1), .text ['.'], .field (.month 1), .text ['.'], .field (.year 4)]⟩ := by cbv
  obtain ⟨before, hannounced⟩ := announcement?_eq_some_iff.1
    (by cbv : announcement? ["due to".toList] "// TODO due to 1.2.2023".toList =
      some ("due to".toList, " 1.2.2023".toList))
  have htrimmed : IsTrimmed "1.2.2023".toList := trim_eq_self_iff.1 (by cbv)
  exact ⟨_, hformat, (ofComment_within_window hformat htrimmed (by cbv) hannounced).1 (by decide)⟩

/-- A day and a month in two digits each are accepted by the same pattern, but do not fit. -/
theorem DueDate.not_ofComment_longDay :
    ∃ format, DateFormat.ofPattern "d.M.yyyy".toList = .ok format ∧
      IsTrimmed "10.10.2023".toList ∧
      format.read? "10.10.2023".toList = some ⟨2023, 10, 10, by decide, by decide, by decide⟩ ∧
      IsAnnounced ["due to".toList] "// TODO due to 10.10.2023".toList "due to".toList
        "// TODO ".toList (' ' :: "10.10.2023".toList) ∧
      ofComment ["due to".toList] format "// TODO due to 10.10.2023".toList =
        .unreadable "due to".toList "10.10.20".toList := by
  have hformat : DateFormat.ofPattern "d.M.yyyy".toList = .ok ⟨"d.M.yyyy".toList,
      [.field (.day 1), .text ['.'], .field (.month 1), .text ['.'], .field (.year 4)]⟩ := by cbv
  have hcut : cutAt? "due to".toList "// TODO due to 10.10.2023".toList =
      some ("// TODO ".toList, ' ' :: "10.10.2023".toList) := by cbv
  obtain ⟨hsplit, hleftmost⟩ := cutAt?_eq_some_iff.1 hcut
  refine ⟨_, hformat, trim_eq_self_iff.1 (by cbv), by cbv, ⟨⟨[], [], rfl, by simp⟩, hsplit,
    hleftmost⟩, by cbv⟩

end TodoAudit
