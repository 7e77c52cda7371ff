import Mathlib
import TodoAudit.Proofs.DueDate.Possible

/-!
# Text behind a date

In a pattern of exact width every item takes just as much room as what is printed for it, so that a
printed date has as many characters as the pattern (`length_print`). Behind a due phrase and a blank
it fills the window. What follows it is cut off, whatever it is, and the date is found
(`ofComment_ignores_tail`).
-/

namespace TodoAudit

open Text

namespace DatePattern

variable {pattern rest : List Char} {item : Item} {items : List Item} {letter : Char}
  {count : Nat} {d : Date}

/-! ## Patterns without quotes -/

namespace Item

/-- How the item stands in a pattern without quotes around it. -/
def spelling : Item → List Char
  | .field letter count => List.replicate count letter
  | .literal t => t
  | .quote => ['\'', '\'']

theorem BeginsWith.eq_spelling_append (h : BeginsWith pattern item rest) (hfree : '\'' ∉ pattern) :
    pattern = item.spelling ++ rest := by
  cases h with
  | field _ _ _ => rfl
  | plain _ _ _ => rfl
  | quoted _ _ => simp at hfree
  | quote => simp at hfree

/-- A pattern without quotes is made of its items as they stand. -/
theorem flatMap_spelling (h : all pattern = .ok items) (hfree : '\'' ∉ pattern) :
    items.flatMap spelling = pattern := by
  refine induction_of_all (motive := fun pattern items => '\'' ∉ pattern →
    items.flatMap spelling = pattern) (fun _ => rfl) ?_ h hfree
  intro pattern item rest items hbegin ih hfree
  obtain rfl := hbegin.eq_spelling_append hfree
  rw [List.flatMap_cons, ih fun hmem => hfree (List.mem_append_right _ hmem)]

end Item

/-- If there is no blank at an end of such a pattern, there is none at an end of its items. -/
theorem not_hasBlankEnd (hpattern : items.flatMap Item.spelling = pattern)
    (htrimmed : IsTrimmed pattern) : ¬ HasBlankEnd items := by
  rintro (⟨c, t, hitem, hc⟩ | ⟨t, c, hitem, hc⟩)
  · obtain ⟨later, rfl⟩ := List.head?_eq_some_iff.1 hitem
    have hhead : pattern.head? = some c := by
      rw [← hpattern, List.flatMap_cons, Item.spelling, List.cons_append, List.head?_cons]
    cases hc.symm.trans (htrimmed.head c hhead)
  · obtain ⟨front, rfl⟩ := List.getLast?_eq_some_iff.1 hitem
    have hlast : pattern.getLast? = some c := by
      rw [← hpattern, List.flatMap_append, List.flatMap_singleton, Item.spelling,
        ← List.append_assoc, List.getLast?_concat]
    cases hc.symm.trans (htrimmed.last c hlast)

/-! ## Exact width -/

namespace Item

/-- What is printed for the item takes just as much room as the item has in the pattern, if the year
does: literal text, a year in three to nine digits or in two, a month or a day in two digits, a day
of the year in three, or a name in three letters. -/
inductive IsExactWidth : Item → Prop
  | literal {t : List Char} : IsExactWidth (.literal t)
  | longYear {letter : Char} {count : Nat} :
      letter ∈ ['y', 'u'] → 3 ≤ count → count ≤ 9 → IsExactWidth (.field letter count)
  | shortYear {letter : Char} : letter ∈ ['y', 'u'] → IsExactWidth (.field letter 2)
  | month {letter : Char} : letter ∈ ['M', 'L'] → IsExactWidth (.field letter 2)
  | monthName {letter : Char} : letter ∈ ['M', 'L'] → IsExactWidth (.field letter 3)
  | day : IsExactWidth (.field 'd' 2)
  | dayOfYear : IsExactWidth (.field 'D' 3)
  | weekday : IsExactWidth (.field 'E' 3)

/-- The item is a year in three letters or more. -/
def isLongYear : Item → Bool
  | .field letter count => letter ∈ ['y', 'u'] && 3 ≤ count
  | _ => false

namespace IsExactWidth

/-- Only a long year has room for more digits than it has letters. -/
theorem isLongYear_of_isOpen (h : item.IsExactWidth) (hopen : item.isOpen) : item.isLongYear := by
  cases h with
  | literal => cases hopen
  | longYear hyear hthree _ =>
    rw [isLongYear, decide_eq_true hyear, decide_eq_true hthree, Bool.and_self]
  | shortYear hyear => simp [isOpen, mostDigits?, hyear] at hopen
  | month hmonth =>
    simp [isOpen, mostDigits?, not_mem_year_of_mem_month hmonth, hmonth] at hopen
  | monthName hmonth =>
    simp [isOpen, mostDigits?, not_mem_year_of_mem_month hmonth, hmonth] at hopen
  | day => simp [isOpen, mostDigits?] at hopen
  | dayOfYear => simp [isOpen, mostDigits?] at hopen
  | weekday => simp [isOpen, mostDigits?] at hopen

/-- Names have three letters. -/
theorem count_eq_three (h : (field letter count).IsExactWidth)
    (hname : mostDigits? letter count = none) : count = 3 := by
  cases h with
  | longYear hyear hthree _ =>
    rw [mostDigits?, if_pos hyear, if_neg (by omega)] at hname
    cases hname
  | shortYear hyear =>
    rw [mostDigits?, if_pos hyear, if_pos rfl] at hname
    cases hname
  | month hmonth =>
    rw [mostDigits?, if_neg (not_mem_year_of_mem_month hmonth), if_pos hmonth,
      if_pos le_rfl] at hname
    cases hname
  | monthName _ => rfl
  | day => cases hname
  | dayOfYear => rfl
  | weekday => rfl

end IsExactWidth

theorem length_print (hknown : item.IsKnown) (hexact : item.IsExactWidth) (hfits : item.Fits d) :
    (item.print d).length = item.spelling.length := by
  cases item with
  | literal t => rfl
  | quote => cases hexact
  | field letter count =>
    rw [spelling, List.length_replicate]
    cases hmost : mostDigits? letter count with
    | some most => exact length_print_field hknown hfits hmost
    | none =>
      obtain rfl := hexact.count_eq_three hmost
      have hleast := (nameOf_spec d letter 3).2
      rw [print, hmost, Option.isSome_none, if_neg Bool.false_ne_true]
      refine le_antisymm ?_ hleast
      rw [nameOf, if_neg (by decide)]
      exact List.length_take_le 3 _

end Item

/-- With zeros in front, the year of the date has as many digits as each long year of the pattern,
and it is one of this century if the pattern has a short year. -/
structure YearFits (items : List Item) (d : Date) : Prop where
  long : ∀ letter ∈ ['y', 'u'], ∀ count, 3 ≤ count → .field letter count ∈ items →
    0 ≤ d.year ∧ d.year < 10 ^ count
  short : ∀ letter ∈ ['y', 'u'], .field letter 2 ∈ items → 2000 ≤ d.year ∧ d.year ≤ 2099

theorem YearFits.fits (hd : YearFits items d) (hmem : item ∈ items) (h : item.IsExactWidth) :
    item.Fits d := by
  cases h with
  | literal => trivial
  | @longYear letter count hyear hthree _ =>
    intro most _
    rw [numberOf, if_pos hyear, if_neg (by omega)]
    exact hd.long letter hyear count hthree hmem
  | @shortYear letter hyear =>
    intro most _
    have := hd.short letter hyear hmem
    rw [numberOf, if_pos hyear, if_pos rfl]
    omega
  | month hmonth =>
    have hyear := not_mem_year_of_mem_month hmonth
    exact Item.fits_of_not_isOpen hyear (by simp [Item.isOpen, mostDigits?, hyear, hmonth])
  | monthName hmonth =>
    have hyear := not_mem_year_of_mem_month hmonth
    exact Item.fits_of_not_isOpen hyear (by simp [Item.isOpen, mostDigits?, hyear, hmonth])
  | day => exact Item.fits_of_not_isOpen (by decide) rfl
  | dayOfYear => exact Item.fits_of_not_isOpen (by decide) rfl
  | weekday => exact Item.fits_of_not_isOpen (by decide) rfl

/-- A date is printed in as many characters as the pattern has. -/
theorem length_print (hpattern : items.flatMap Item.spelling = pattern)
    (hknown : ∀ item ∈ items, item.IsKnown) (hexact : ∀ item ∈ items, item.IsExactWidth)
    (hd : YearFits items d) : (print d items).length = pattern.length := by
  rw [← hpattern, print, List.length_flatMap, List.length_flatMap]
  congr 1
  refine List.map_congr_left fun item hmem => ?_
  exact Item.length_print (hknown item hmem) (hexact item hmem) (hd.fits hmem (hexact item hmem))

/-- No year of three letters or more stands directly before a number or a digit. -/
def LongYearsEnded (items : List Item) : Prop :=
  items.IsChain fun a b => a.isLongYear → ¬ b.beginsWithDigit

instance (items : List Item) : Decidable (LongYearsEnded items) :=
  inferInstanceAs (Decidable (List.IsChain _ items))

theorem LongYearsEnded.separated (h : LongYearsEnded items)
    (hexact : ∀ item ∈ items, item.IsExactWidth) : Separated items :=
  List.IsChain.imp_of_mem_imp (fun _ _ ha _ hended hopen =>
    hended ((hexact _ ha).isLongYear_of_isOpen hopen)) h

end DatePattern

open DatePattern

variable {phrases : List (List Char)} {pattern comment phrase before tail : List Char}
  {format : DateFormat} {items : List Item} {d : Date} {blank : Char}

/-- A date that is printed by a pattern of exact width, behind a due phrase and one blank, is found
whatever follows it. -/
theorem DueDate.ofComment_ignores_tail (hformat : DateFormat.ofPattern pattern = .ok format)
    (hquote : '\'' ∉ pattern) (hends : IsTrimmed pattern) (hitems : Item.all pattern = .ok items)
    (hexact : ∀ item ∈ items, item.IsExactWidth) (hyears : LongYearsEnded items)
    (hd : YearFits items d) (hblank : isBlank blank = true)
    (h : IsAnnounced phrases comment phrase before (blank :: (print d items ++ tail))) :
    ofComment phrases format comment = .date d := by
  have hknown := isKnown_of_ofPattern hformat hitems
  have hpattern := Item.flatMap_spelling hitems hquote
  have htrimmed : IsTrimmed (print d items) :=
    isTrimmed_print hknown (not_hasBlankEnd hpattern hends)
  have hrenders : Renders d items (print d items) :=
    renders_print hknown (fun item hmem => (hd.fits hmem (hexact item hmem)).covers
      (hknown item hmem)) (hyears.separated hexact)
  -- the blank and the date fill the window, so that the tail is behind it
  have hwindow :
      (blank :: (print d items ++ tail)).take format.window = blank :: print d items := by
    rw [DateFormat.window, DateFormat.pattern_of_ofPattern hformat, List.take_succ_cons,
      ← length_print hpattern hknown hexact hd, List.take_left]
  rw [h.ofComment_eq_date_iff, hwindow, trim_cons_of_isBlank hblank, trim_eq_self_iff.2 htrimmed]
  exact (DateFormat.read?_iff_renders hformat hitems).2 hrenders

/-- A pattern with names, behind a blank that does not break, before text that goes on. -/
theorem DueDate.ofComment_ignores_tail_names :
    ∃ format items, DateFormat.ofPattern "EEE dd MMM yyyy".toList = .ok format ∧
      Item.all "EEE dd MMM yyyy".toList = .ok items ∧
      YearFits items ⟨2024, 2, 29, by decide, by decide, by decide⟩ ∧
      print ⟨2024, 2, 29, by decide, by decide, by decide⟩ items = "Thu 29 Feb 2024".toList ∧
      ofComment ["by".toList, "due".toList] format
          "// TODO é due\u00a0Thu 29 Feb 2024, then 1.3.".toList =
        .date ⟨2024, 2, 29, by decide, by decide, by decide⟩ := by
  have hformat : DateFormat.ofPattern "EEE dd MMM yyyy".toList = .ok ⟨"EEE dd MMM yyyy".toList,
      [.field (.weekday false), .text [' '], .field (.day 2), .text [' '],
        .field (.monthName false), .text [' '], .field (.year 4)]⟩ := by cbv
  have hitems : Item.all "EEE dd MMM yyyy".toList = .ok [.field 'E' 3, .literal [' '],
      .field 'd' 2, .literal [' '], .field 'M' 3, .literal [' '], .field 'y' 4] := by cbv
  have hexact : ∀ item ∈ [Item.field 'E' 3, .literal [' '], .field 'd' 2, .literal [' '],
      .field 'M' 3, .literal [' '], .field 'y' 4], item.IsExactWidth := by
    simp only [List.forall_mem_cons]
    exact ⟨.weekday, .literal, .day, .literal, .monthName (by decide), .literal,
      .longYear (by decide) (by decide) (by decide), by simp⟩
  have hd : YearFits [.field 'E' 3, .literal [' '], .field 'd' 2, .literal [' '], .field 'M' 3,
      .literal [' '], .field 'y' 4] ⟨2024, 2, 29, by decide, by decide, by decide⟩ := by
    refine ⟨?_, by simp⟩
    intro letter hyear count _ hmem
    rcases List.mem_pair.1 hyear with rfl | rfl <;> simp at hmem
    subst hmem
    decide
  have hprint : print ⟨2024, 2, 29, by decide, by decide, by decide⟩ [.field 'E' 3, .literal [' '],
      .field 'd' 2, .literal [' '], .field 'M' 3, .literal [' '], .field 'y' 4] =
      "Thu 29 Feb 2024".toList := by decide +kernel
  obtain ⟨before, h⟩ := announcement?_eq_some_iff.1
    (by cbv : announcement? ["by".toList, "due".toList]
        "// TODO é due\u00a0Thu 29 Feb 2024, then 1.3.".toList =
      some ("due".toList, '\u00a0' :: ("Thu 29 Feb 2024".toList ++ ", then 1.3.".toList)))
  rw [← hprint] at h
  exact ⟨_, _, hformat, hitems, hd, hprint, ofComment_ignores_tail hformat (by decide)
    (trim_eq_self_iff.1 (by cbv)) hitems hexact (by decide) hd (by decide) h⟩

end TodoAudit
