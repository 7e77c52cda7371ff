import Mathlib
import TodoAudit.Proofs.DatePattern.Printing
import TodoAudit.Proofs.DueDate.Announcement
import TodoAudit.Proofs.Scanning
import TodoAudit.Proofs.Text.Trimming

/-!
# Rules by which a due date can be written

What stands behind a due phrase is cut to the window and trimmed before it is read. So there are
rules that can be followed, but by which no comment has a due date: their pattern has no written
form that is left whole. `dueDate_possible` says when there is one.
-/

namespace TodoAudit

open Text DatePattern

variable {items : List Item} {window : Nat} {pattern text comment : List Char}
  {format : DateFormat} {rules : ReadingRules} {reader : TodoReader} {d : Date} {letter : Char}
  {count : Nat} {item : Item}

/-- The text is a written form of the date that is left whole by cutting and trimming. -/
structure IsWhole (items : List Item) (window : Nat) (d : Date) (text : List Char) : Prop where
  renders : Renders d items text
  trimmed : IsTrimmed text
  short : text.length ≤ window

/-! ## Comments with a due date -/

theorem TodoReader.ofRules_eq_ok (h : ofRules rules = .ok reader) :
    reader.phrases = rules.duePhrases.map String.toList ∧
      DateFormat.ofPattern rules.dateFormat.toList = .ok reader.format := by
  rw [ofRules] at h
  split at h
  · cases h
  · obtain ⟨-, -, h⟩ := Success.bind_eq_ok_iff.1 h
    obtain ⟨format, hformat, h⟩ := Success.bind_eq_ok_iff.1 h
    cases h
    exact ⟨rfl, Success.mapError_eq_ok_iff.1 hformat⟩

/-- The items of an accepted pattern are known, and say what the format reads. -/
theorem TodoReader.exists_items (h : ofRules rules = .ok reader) :
    ∃ items, Item.all rules.dateFormat.toList = .ok items ∧ (∀ item ∈ items, item.IsKnown) ∧
      (∀ text d, reader.format.read? text = some d ↔ Renders d items text) ∧
      reader.format.window = rules.dateFormat.toList.length + 1 := by
  obtain ⟨-, hformat⟩ := ofRules_eq_ok h
  obtain ⟨items, hitems, -⟩ := DateFormat.exists_items_of_ofPattern hformat
  refine ⟨items, hitems, isKnown_of_ofPattern hformat hitems, ?_, ?_⟩
  · intro text d
    exact DateFormat.read?_iff_renders hformat hitems
  · rw [DateFormat.window, DateFormat.pattern_of_ofPattern hformat]

/-- There is a comment with a due date if there is a text that is left whole. -/
theorem TodoReader.exists_dueDate_iff (hphrases : reader.phrases ≠ [])
    (hread : ∀ text d, reader.format.read? text = some d ↔ Renders d items text) :
    (∃ comment d, reader.dueDate comment = .date d) ↔
      ∃ d text, IsWhole items reader.format.window d text := by
  constructor
  · rintro ⟨comment, d, h⟩
    obtain ⟨phrase, before, after, -, h⟩ := DueDate.ofComment_eq_date_iff.1 h
    refine ⟨d, _, (hread _ d).1 h, isTrimmed_trim _, ?_⟩
    exact (length_trim_le _).trans (List.length_take_le _ _)
  · rintro ⟨d, text, hrenders, htrimmed, hshort⟩
    obtain ⟨phrase, phrases, hcons⟩ := List.exists_cons_of_ne_nil hphrases
    have hannounced : IsAnnounced reader.phrases (phrase ++ text) phrase [] text := by
      rw [hcons]
      exact isAnnounced_cons phrase phrases text
    refine ⟨phrase ++ text, d, hannounced.ofComment_eq_date_iff.2 ?_⟩
    rw [List.take_of_length_le hshort, trim_eq_self_iff.2 htrimmed]
    exact (hread text d).2 hrenders

/-- If no comment has a due date, no todo of any tree has one. -/
theorem dueDate_eq_none_of_scan {tree : FileTree} {root : String} {extensions : List String}
    {todos : List Todo} (hrules : TodoReader.ofRules rules = .ok reader)
    (h : ¬ ∃ comment d, reader.dueDate comment = .date d)
    (hscan : scan tree root ⟨rules, extensions⟩ = .ok todos) : ∀ t ∈ todos, t.dueDate = none := by
  obtain ⟨reader', files, sources, hreader, -, -, rfl⟩ := scan_eq_ok_iff.1 hscan
  cases hrules.symm.trans hreader
  intro t ht
  obtain ⟨c, -, rfl⟩ := List.mem_map.1 ht
  rw [TodoReader.dueDate_record]
  cases hdue : reader.due c with
  | date d => exact absurd ⟨_, d, hdue⟩ h
  | _ => rfl

/-! ## White space at the ends of a pattern -/

/-- Literal text at an end of the pattern has white space at this end. -/
def HasBlankEnd (items : List Item) : Prop :=
  (∃ c t, items.head? = some (.literal (c :: t)) ∧ isBlank c = true) ∨
    ∃ t c, items.getLast? = some (.literal (t ++ [c])) ∧ isBlank c = true

/-- By such a pattern nothing is written that is left whole by trimming. -/
theorem not_isWhole_of_hasBlankEnd (h : HasBlankEnd items) : ¬ IsWhole items window d text := by
  rintro ⟨hrenders, ⟨hhead, hlast⟩, -⟩
  rcases h with ⟨c, t, hitem, hc⟩ | ⟨t, c, hitem, hc⟩
  · obtain ⟨rest, rfl⟩ := hrenders.prefix_of_literal hitem
    cases hc.symm.trans (hhead c rfl)
  · obtain ⟨front, rfl⟩ := hrenders.suffix_of_literal hitem
    cases hc.symm.trans (hlast c (by simp))

/-- What is printed by another pattern is left whole by trimming. -/
theorem isTrimmed_print (hknown : ∀ item ∈ items, item.IsKnown) (h : ¬ HasBlankEnd items) :
    IsTrimmed (print d items) where
  head := by
    intro c hc
    obtain ⟨item, hitem, hprint⟩ := head_print hknown hc
    rcases (Item.print_spec (d := d) (hknown item (List.mem_of_head? hitem))).2 with
      ⟨t, rfl⟩ | hall
    · obtain ⟨rest, rfl⟩ := List.head?_eq_some_iff.1 hprint
      exact Bool.eq_false_iff.2 fun hblank => h (.inl ⟨c, rest, hitem, hblank⟩)
    · exact hall c (List.mem_of_head? hprint)
  last := by
    intro c hc
    obtain ⟨item, hitem, hprint⟩ := getLast_print hknown hc
    rcases (Item.print_spec (d := d) (hknown item (List.mem_of_getLast? hitem))).2 with
      ⟨t, rfl⟩ | hall
    · obtain ⟨front, rfl⟩ := List.getLast?_eq_some_iff.1 hprint
      exact Bool.eq_false_iff.2 fun hblank => h (.inr ⟨front, c, hitem, hblank⟩)
    · exact hall c (List.mem_of_getLast? hprint)

/-! ## Patterns with room for a date -/

/-- Some date has its shortest written form within the letters of the pattern: names have no more
letters than the runs that ask for them, and a short year or a whole month name does not stand
beside a run that is too short for the dates that it admits. -/
structure IsRoomy (items : List Item) : Prop where
  weekday : ∀ count, .field 'E' count ∈ items → count = 3
  year : ∀ letter ∈ ['y', 'u'], ∀ other ∈ ['y', 'u'], ∀ count,
    .field letter 2 ∈ items → .field other count ∈ items → count = 2 ∨ 4 ≤ count
  dayOfYear : ∀ letter ∈ ['M', 'L'], ∀ count,
    .field letter 4 ∈ items → .field 'D' count ∈ items → count = 3

/-- A date for the pattern: in January of year one, unless there is a short year or a whole name of
a month in it. -/
structure IsSample (items : List Item) (d : Date) : Prop where
  day : d.day = 1
  year : (∃ letter ∈ ['y', 'u'], .field letter 2 ∈ items) ∧ d.year = 2000 ∨
    (¬ ∃ letter ∈ ['y', 'u'], .field letter 2 ∈ items) ∧ d.year = 1
  month : (∃ letter ∈ ['M', 'L'], .field letter 4 ∈ items) ∧ d.month = 5 ∨
    (¬ ∃ letter ∈ ['M', 'L'], .field letter 4 ∈ items) ∧ d.month = 1

theorem exists_isSample (items : List Item) : ∃ d, IsSample items d := by
  by_cases hyear : ∃ letter ∈ ['y', 'u'], .field letter 2 ∈ items <;>
    by_cases hmonth : ∃ letter ∈ ['M', 'L'], .field letter 4 ∈ items
  · exact ⟨⟨2000, 5, 1, by decide, by decide, by decide⟩, rfl, .inl ⟨hyear, rfl⟩,
      .inl ⟨hmonth, rfl⟩⟩
  · exact ⟨⟨2000, 1, 1, by decide, by decide, by decide⟩, rfl, .inl ⟨hyear, rfl⟩,
      .inr ⟨hmonth, rfl⟩⟩
  · exact ⟨⟨1, 5, 1, by decide, by decide, by decide⟩, rfl, .inr ⟨hyear, rfl⟩,
      .inl ⟨hmonth, rfl⟩⟩
  · exact ⟨⟨1, 1, 1, by decide, by decide, by decide⟩, rfl, .inr ⟨hyear, rfl⟩,
      .inr ⟨hmonth, rfl⟩⟩

namespace IsSample

theorem dayOfYear_eq (h : IsSample items d) (hmonth : d.month = 1) : d.dayOfYear = 1 := by
  rw [Date.dayOfYear, hmonth, h.day]
  rfl

theorem dayOfYear_lt (h : IsSample items d) (hmonth : d.month = 5) : d.dayOfYear < 10 ^ 3 := by
  rw [Date.dayOfYear, hmonth, h.day]
  simp only [daysBeforeMonth, daysInMonth]
  split_ifs <;> simp_all

/-- The numbers of the date have as few digits as the runs have letters. -/
theorem numberOf_lt (h : IsSample items d) (hroomy : IsRoomy items)
    (hmem : .field letter count ∈ items) (hpos : 0 < count) {most : Nat}
    (hmost : mostDigits? letter count = some most) :
    0 ≤ numberOf d letter count ∧ numberOf d letter count < 10 ^ count := by
  have hpow : ∀ {n : Int} {k : Nat}, k ≤ count → n < 10 ^ k → n < 10 ^ count := by
    intro n k hk hn
    exact hn.trans_le (pow_le_pow_right₀ (by norm_num) hk)
  unfold mostDigits? at hmost
  unfold numberOf
  split_ifs at hmost ⊢ with hyear htwo hmonth hcount hday hdayOfYear
  · rcases h.year with ⟨-, hd⟩ | ⟨hnone, -⟩
    · exact ⟨by omega, hpow (k := 1) hpos (by omega)⟩
    · exact absurd ⟨letter, hyear, htwo ▸ hmem⟩ hnone
  · rcases h.year with ⟨⟨other, hother, hshort⟩, hd⟩ | ⟨-, hd⟩
    · have hwide := (hroomy.year other hother letter hyear count hshort hmem).resolve_left htwo
      exact ⟨by omega, hpow hwide (by omega)⟩
    · exact ⟨by omega, hpow (k := 1) hpos (by omega)⟩
  · have hd : d.month = 5 ∨ d.month = 1 := h.month.imp And.right And.right
    exact ⟨by omega, hpow (k := 1) hpos (by omega)⟩
  · have hd := h.day
    exact ⟨by omega, hpow (k := 1) hpos (by omega)⟩
  · subst hdayOfYear
    rcases h.month with ⟨⟨other, hother, hname⟩, hd⟩ | ⟨-, hd⟩
    · have hwide := hroomy.dayOfYear other hother count hname hmem
      have hlt := h.dayOfYear_lt hd
      exact ⟨by omega, hpow hwide.ge (by omega)⟩
    · have hd := h.dayOfYear_eq hd
      exact ⟨by omega, hpow (k := 1) hpos (by omega)⟩

/-- The names of the date have no more letters than the runs. -/
theorem length_nameOf_le (h : IsSample items d) (hroomy : IsRoomy items)
    (hmem : .field letter count ∈ items) (hfield : (Field.ofRun? letter count).isSome)
    (hmost : mostDigits? letter count = none) : (nameOf d letter count).length ≤ count := by
  have htake : ∀ name : List Char, (name.take 3).length ≤ 3 := List.length_take_le 3
  rcases weekday_or_month_of_mostDigits? hfield hmost with rfl | ⟨hne, hmonth, rfl | rfl⟩
  · rw [hroomy.weekday count hmem, nameOf, if_neg (by decide)]
    exact htake _
  · rw [nameOf, if_neg (by decide)]
    exact htake _
  · rcases h.month with ⟨-, hd⟩ | ⟨hnone, -⟩
    · rw [nameOf, if_pos rfl, if_neg hne, Date.monthName, hd]
      decide
    · exact absurd ⟨letter, hmonth, hmem⟩ hnone

theorem covers_and_print_le (h : IsSample items d) (hroomy : IsRoomy items) (hmem : item ∈ items)
    (hknown : item.IsKnown) : item.Covers d ∧ (item.print d).length ≤ item.width := by
  cases item with
  | literal t => exact ⟨trivial, le_rfl⟩
  | quote => exact ⟨trivial, le_rfl⟩
  | field letter count =>
    have hfits : (Item.field letter count).Fits d := by
      intro most hmost
      exact h.numberOf_lt hroomy hmem (le_mostDigits hknown hmost).1 hmost
    refine ⟨hfits.covers hknown, ?_⟩
    cases hmost : mostDigits? letter count with
    | some most => exact (Item.length_print_field hknown hfits hmost).le
    | none =>
      rw [Item.print, hmost, Option.isSome_none, if_neg Bool.false_ne_true]
      exact h.length_nameOf_le hroomy hmem hknown hmost

end IsSample

/-- By a pattern with room for a date, a date can be written so that it is left whole. -/
theorem exists_isWhole (hknown : ∀ item ∈ items, item.IsKnown)
    (hwidth : (items.map Item.width).sum ≤ window) (hends : ¬ HasBlankEnd items)
    (hsep : Separated items) (hroomy : IsRoomy items) : ∃ d text, IsWhole items window d text := by
  obtain ⟨d, hd⟩ := exists_isSample items
  have hitem := fun item hmem => hd.covers_and_print_le hroomy hmem (hknown item hmem)
  refine ⟨d, print d items, ?_, isTrimmed_print hknown hends, ?_⟩
  · exact renders_print hknown (fun item hmem => (hitem item hmem).1) hsep
  · rw [print, List.length_flatMap]
    exact (List.sum_le_sum fun item hmem => (hitem item hmem).2).trans hwidth

/-! ## Rules -/

/-- Rules that can be followed, with a due phrase. There is a comment with a due date exactly if
some written form of a date is left whole, and if there is none, no todo of any tree is due. There
is none if the pattern has white space at an end. There is one for every other pattern that has room
for a date and in which no number can take in the digits of the next one. -/
theorem TodoReader.dueDate_possible (h : ofRules rules = .ok reader)
    (hphrases : rules.duePhrases ≠ []) :
    ∃ items, Item.all rules.dateFormat.toList = .ok items ∧
      ((∃ comment d, reader.dueDate comment = .date d) ↔
        ∃ d text, IsWhole items (rules.dateFormat.toList.length + 1) d text) ∧
      ((¬ ∃ d text, IsWhole items (rules.dateFormat.toList.length + 1) d text) →
        ∀ tree root extensions todos, scan tree root ⟨rules, extensions⟩ = .ok todos →
          ∀ t ∈ todos, t.dueDate = none) ∧
      (HasBlankEnd items →
        ¬ ∃ d text, IsWhole items (rules.dateFormat.toList.length + 1) d text) ∧
      (¬ HasBlankEnd items → Separated items → IsRoomy items →
        ∃ d text, IsWhole items (rules.dateFormat.toList.length + 1) d text) := by
  obtain ⟨items, hitems, hknown, hread, hwindow⟩ := exists_items h
  have hiff : (∃ comment d, reader.dueDate comment = .date d) ↔
      ∃ d text, IsWhole items (rules.dateFormat.toList.length + 1) d text := by
    rw [← hwindow]
    refine exists_dueDate_iff ?_ hread
    rw [(ofRules_eq_ok h).1]
    simpa using hphrases
  refine ⟨items, hitems, hiff, ?_, ?_, ?_⟩
  · intro hnone tree root extensions todos hscan
    exact dueDate_eq_none_of_scan h (fun hdue => hnone (hiff.1 hdue)) hscan
  · rintro hends ⟨d, text, hwhole⟩
    exact not_isWhole_of_hasBlankEnd hends hwhole
  · intro hends hsep hroomy
    have hwidth := Item.sum_width_le hitems
    exact exists_isWhole hknown (by omega) hends hsep hroomy

/-- The default rules admit due dates. -/
theorem TodoReader.dueDate_possible_default :
    ∃ reader, ofRules {} = .ok reader ∧ ∃ comment d, reader.dueDate comment = .date d := by
  have h : ofRules {} = .ok ⟨["due to".toList], ⟨"dd.MM.yyyy".toList, [.field (.day 2), .text ['.'],
      .field (.month 2), .text ['.'], .field (.year 4)]⟩, ['@']⟩ := by cbv
  obtain ⟨items, hitems, hiff, -, -, hwhole⟩ := dueDate_possible h (by decide)
  have hall : Item.all "dd.MM.yyyy".toList = .ok [.field 'd' 2, .literal ['.'], .field 'M' 2,
      .literal ['.'], .field 'y' 4] := by cbv
  cases hall.symm.trans hitems
  refine ⟨_, h, hiff.2 (hwhole ?_ (by decide) ⟨by simp, by simp, by simp⟩)⟩
  rintro (⟨c, t, hitem, -⟩ | ⟨t, c, hitem, -⟩) <;> cases hitem

/-- A blank at the end of the pattern: the rules can be followed, but nothing is ever due. -/
theorem TodoReader.not_dueDate_trailingBlank :
    ∃ rules : ReadingRules, rules.check = .ok () ∧ rules.duePhrases ≠ [] ∧
      ¬ ∃ reader comment d, ofRules rules = .ok reader ∧ reader.dueDate comment = .date d := by
  refine ⟨{ dateFormat := "dd.MM.yyyy " }, by cbv, by decide, ?_⟩
  rintro ⟨reader, comment, d, hreader, hdue⟩
  obtain ⟨items, hitems, -, hread, -⟩ := exists_items hreader
  have hall : Item.all "dd.MM.yyyy ".toList = .ok [.field 'd' 2, .literal ['.'], .field 'M' 2,
      .literal ['.'], .field 'y' 4, .literal [' ']] := by cbv
  cases hall.symm.trans hitems
  have hphrases : reader.phrases ≠ [] := by
    rw [(ofRules_eq_ok hreader).1]
    decide
  obtain ⟨d', text, hwhole⟩ := (exists_dueDate_iff hphrases hread).1 ⟨comment, d, hdue⟩
  exact not_isWhole_of_hasBlankEnd (.inr ⟨[], ' ', rfl, by decide⟩) hwhole

end TodoAudit
