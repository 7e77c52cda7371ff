import Mathlib
import TodoAudit.Proofs.DatePattern.Printing

/-!
# Patterns of fixed width

Where the numbers of a date have no more digits than the pattern has letters for them, nothing that
is written for an item is shorter than what is printed for it. So a printed date can be cut into the
items in one way only, and it is a written form of the date exactly if no number that has room for
more digits stands before another digit (`renders_print_iff`).

Of the numbers in a pattern of fixed width only the long year has room for more digits. A date that
is printed by such a pattern is read back exactly if no long year stands directly before another
number (`read?_print_fixedWidth_iff`).
-/

namespace TodoAudit

open Text Text.Decimal

namespace DatePattern

variable {d : Date} {letter : Char} {count most : Nat} {word rest text : List Char}
  {item : Item} {items : List Item}

/-! ## Written forms are no shorter than the printed one -/

namespace Item

theorem length_print_le (hknown : item.IsKnown) (hfits : item.Fits d)
    (h : Writes d item word rest) : (item.print d).length ≤ word.length := by
  cases item with
  | literal t => rw [writes_literal_iff.1 h, print]
  | quote => rw [writes_quote_iff.1 h, print]
  | field letter count =>
    cases hmost : mostDigits? letter count with
    | some most =>
      rw [length_print_field hknown hfits hmost]
      exact (numeral_of_writes hmost h).least_le
    | none => rw [eq_nameOf_of_writes hmost h, print, hmost, Option.isSome_none, if_neg (by decide)]

/-- What is printed for an item begins with a digit if it is said to. -/
theorem exists_digit_print (hknown : item.IsKnown) (h : item.beginsWithDigit) :
    ∃ c tail, item.print d = c :: tail ∧ isDigit c = true := by
  cases item with
  | literal t =>
    cases t with
    | nil => cases h
    | cons c t => exact ⟨c, t, rfl, h⟩
  | quote => cases h
  | field letter count =>
    obtain ⟨c, tail, hprint⟩ := List.exists_cons_of_ne_nil (print_spec (d := d) hknown).1
    refine ⟨c, tail, hprint, ?_⟩
    rw [beginsWithDigit] at h
    rw [print, if_pos h] at hprint
    exact isDigit_of_mem_padded (hprint ▸ List.mem_cons_self)

/-- What is printed for a number with room for more digits does not stand before a digit. -/
theorem rest_of_writes_print (hknown : item.IsKnown) (hfits : item.Fits d) (hopen : item.isOpen)
    (h : Writes d item (item.print d) rest) :
    rest = [] ∨ ∃ c tail, rest = c :: tail ∧ isDigit c = false := by
  cases item with
  | literal t => cases hopen
  | quote => cases hopen
  | field letter count =>
    rw [isOpen, Option.any_eq_true] at hopen
    obtain ⟨most, hmost, hlt⟩ := hopen
    have hlength := length_print_field hknown hfits hmost
    refine (numeral_of_writes hmost h).longest.resolve_left ?_
    rw [hlength]
    exact (of_decide_eq_true hlt).ne

end Item

theorem Renders.length_print_le (hknown : ∀ item ∈ items, item.IsKnown)
    (hfits : ∀ item ∈ items, item.Fits d) (h : Renders d items text) :
    (print d items).length ≤ text.length := by
  induction h with
  | nil => exact le_rfl
  | cons hword _ ih =>
    rw [List.forall_mem_cons] at hknown hfits
    rw [print, List.flatMap_cons, List.length_append, List.length_append]
    exact Nat.add_le_add (Item.length_print_le hknown.1 hfits.1 hword) (ih hknown.2 hfits.2)

theorem separated_of_renders_print (hknown : ∀ item ∈ items, item.IsKnown)
    (hfits : ∀ item ∈ items, item.Fits d) (h : Renders d items (print d items)) :
    Separated items := by
  induction items with
  | nil => exact .nil
  | cons item items ih =>
    rw [List.forall_mem_cons] at hknown hfits
    obtain ⟨word, rest, hsplit, hword, hrest⟩ := renders_cons_iff.1 h
    rw [print, List.flatMap_cons, ← print] at hsplit
    -- neither part is shorter than what is printed for it, so each is just that
    have hlength : (item.print d).length = word.length := by
      have hfront := Item.length_print_le hknown.1 hfits.1 hword
      have hback := hrest.length_print_le hknown.2 hfits.2
      have hsum := congrArg List.length hsplit
      rw [List.length_append, List.length_append] at hsum
      omega
    obtain ⟨rfl, rfl⟩ := List.append_inj hsplit hlength
    have htail := ih hknown.2 hfits.2 hrest
    cases items with
    | nil => exact List.isChain_singleton _
    | cons next items =>
      refine List.isChain_cons_cons.2 ⟨?_, htail⟩
      intro hopen hdigit
      obtain ⟨c, tail, hprint, hc⟩ :=
        Item.exists_digit_print (d := d) (hknown.2 next List.mem_cons_self) hdigit
      rw [print, List.flatMap_cons, hprint, List.cons_append] at hword
      rcases Item.rest_of_writes_print hknown.1 hfits.1 hopen hword with hnil | ⟨c', _, heq, hc'⟩
      · cases hnil
      · cases heq
        cases hc.symm.trans hc'

/-- A printed date is a written form of the date exactly if no number takes in what follows. -/
theorem renders_print_iff (hknown : ∀ item ∈ items, item.IsKnown)
    (hfits : ∀ item ∈ items, item.Fits d) : Renders d items (print d items) ↔ Separated items :=
  ⟨separated_of_renders_print hknown hfits,
    renders_print hknown fun item hmem => (hfits item hmem).covers (hknown item hmem)⟩

/-! ## Fixed width -/

namespace Item

/-- The item always takes as much room as it is wide: literal text without digits, a name, a year in
four or in two digits, a month or a day in two, or a day of the year in three. -/
inductive IsFixedWidth : Item → Prop
  | literal {t : List Char} : (∀ c ∈ t, isDigit c = false) → IsFixedWidth (.literal t)
  | quote : IsFixedWidth .quote
  | longYear {letter : Char} : letter ∈ ['y', 'u'] → IsFixedWidth (.field letter 4)
  | shortYear {letter : Char} : letter ∈ ['y', 'u'] → IsFixedWidth (.field letter 2)
  | month {letter : Char} : letter ∈ ['M', 'L'] → IsFixedWidth (.field letter 2)
  | monthName {letter : Char} {count : Nat} :
      letter ∈ ['M', 'L'] → 2 < count → IsFixedWidth (.field letter count)
  | day : IsFixedWidth (.field 'd' 2)
  | dayOfYear : IsFixedWidth (.field 'D' 3)
  | weekday {count : Nat} : IsFixedWidth (.field 'E' count)

/-- The item is a year in four digits or more. -/
def IsLongYear : Item → Prop
  | .field letter count => letter ∈ ['y', 'u'] ∧ count = 4
  | _ => False

/-- The item is a number. -/
def IsNumber : Item → Prop
  | .field letter count => (mostDigits? letter count).isSome
  | _ => False

theorem mostDigits?_of_monthName (hmonth : letter ∈ ['M', 'L']) (hcount : 2 < count) :
    mostDigits? letter count = none := by
  rw [mostDigits?, if_neg (not_mem_year_of_mem_month hmonth), if_pos hmonth,
    if_neg (Nat.not_le.2 hcount)]

/-- Only a long year has room for more digits than it has letters. -/
theorem isOpen_iff_isLongYear (h : item.IsFixedWidth) : item.isOpen ↔ item.IsLongYear := by
  cases h with
  | literal _ => exact iff_of_false Bool.false_ne_true id
  | quote => exact iff_of_false Bool.false_ne_true id
  | longYear hyear => simp [isOpen, IsLongYear, mostDigits?, hyear]
  | shortYear hyear => simp [isOpen, IsLongYear, mostDigits?, hyear]
  | month hmonth =>
    have hyear := not_mem_year_of_mem_month hmonth
    simp [isOpen, IsLongYear, mostDigits?, hyear, hmonth]
  | monthName hmonth hcount =>
    have hyear := not_mem_year_of_mem_month hmonth
    simp [isOpen, IsLongYear, mostDigits?_of_monthName hmonth hcount, hyear]
  | day => simp [isOpen, IsLongYear, mostDigits?]
  | dayOfYear => simp [isOpen, IsLongYear, mostDigits?]
  | weekday => simp [isOpen, IsLongYear, mostDigits?]

/-- Only a number begins with a digit. -/
theorem beginsWithDigit_iff_isNumber (h : item.IsFixedWidth) :
    item.beginsWithDigit ↔ item.IsNumber := by
  cases item with
  | literal t =>
    refine iff_of_false ?_ id
    cases h with
    | literal hfree =>
      rw [beginsWithDigit, Option.any_eq_true]
      rintro ⟨c, hc, hdigit⟩
      cases hdigit.symm.trans (hfree c (List.mem_of_head? hc))
  | quote => exact iff_of_false Bool.false_ne_true id
  | field letter count => exact Iff.rfl

end Item

/-- The year of the date has at most four digits, and is one of this century if the pattern has a
short year. -/
structure IsWithin (items : List Item) (d : Date) : Prop where
  year : 0 ≤ d.year ∧ d.year ≤ 9999
  shortYear : ∀ letter ∈ ['y', 'u'], .field letter 2 ∈ items → 2000 ≤ d.year ∧ d.year ≤ 2099

theorem IsWithin.fits (hd : IsWithin items d) (hmem : item ∈ items) (h : item.IsFixedWidth) :
    item.Fits d := by
  cases h with
  | literal _ => trivial
  | quote => trivial
  | longYear hyear =>
    intro most _
    have := hd.year
    rw [numberOf, if_pos hyear, if_neg (by decide)]
    omega
  | @shortYear letter hyear =>
    intro most _
    have := hd.shortYear letter hyear hmem
    rw [numberOf, if_pos hyear, if_pos rfl]
    omega
  | month hmonth =>
    have hyear := not_mem_year_of_mem_month hmonth
    exact Item.fits_of_not_isOpen hyear (by simp [Item.isOpen, mostDigits?, hyear, hmonth])
  | @monthName letter count hmonth hcount =>
    have hopen : (Item.field letter count).isOpen = false := by
      rw [Item.isOpen, Item.mostDigits?_of_monthName hmonth hcount]
      rfl
    exact Item.fits_of_not_isOpen (not_mem_year_of_mem_month hmonth) hopen
  | day => exact Item.fits_of_not_isOpen (by decide) rfl
  | dayOfYear => exact Item.fits_of_not_isOpen (by decide) rfl
  | weekday => exact Item.fits_of_not_isOpen (by decide) rfl

/-- Long years stand apart from the numbers behind them: none stands directly before another
number. -/
def YearsApart (items : List Item) : Prop :=
  ∀ before a b after, items = before ++ a :: b :: after → a.IsLongYear → ¬ b.IsNumber

theorem separated_iff_yearsApart (h : ∀ item ∈ items, item.IsFixedWidth) :
    Separated items ↔ YearsApart items := by
  have hpair : ∀ a b : Item, a ∈ items → b ∈ items →
      ((a.isOpen → ¬ b.beginsWithDigit) ↔ (a.IsLongYear → ¬ b.IsNumber)) := by
    intro a b ha hb
    rw [Item.isOpen_iff_isLongYear (h a ha), Item.beginsWithDigit_iff_isNumber (h b hb)]
  rw [Separated, List.IsChain.iff_of_mem_imp hpair,
    List.isChain_iff_forall_rel_of_append_cons_cons]
  exact ⟨fun hall before a b after => @hall a b before after,
    fun hall a b before after => hall before a b after⟩

end DatePattern

open DatePattern

variable {pattern : List Char} {format : DateFormat} {items : List Item} {d : Date}

/-- A date that is printed by an accepted pattern of fixed width is read back exactly if in the
pattern no long year stands directly before another number. -/
theorem DateFormat.read?_print_fixedWidth_iff (h : ofPattern pattern = .ok format)
    (hitems : Item.all pattern = .ok items) (hfixed : ∀ item ∈ items, item.IsFixedWidth)
    (hd : IsWithin items d) : format.read? (print d items) = some d ↔ YearsApart items := by
  have hknown := isKnown_of_ofPattern h hitems
  have hfits := fun item hmem => hd.fits hmem (hfixed item hmem)
  rw [read?_iff_renders h hitems, renders_print_iff hknown hfits, separated_iff_yearsApart hfixed]

/-- Numbers stand directly behind one another, and the long year before a blank. -/
theorem DateFormat.read?_print_fixedWidth_leapDay :
    ∃ format items, ofPattern "DDDddMMuuuu EEEE".toList = .ok format ∧
      Item.all "DDDddMMuuuu EEEE".toList = .ok items ∧
      format.read? (print ⟨2024, 2, 29, by decide, by decide, by decide⟩ items) =
        some ⟨2024, 2, 29, by decide, by decide, by decide⟩ := by
  have h : ofPattern "DDDddMMuuuu EEEE".toList = .ok ⟨"DDDddMMuuuu EEEE".toList,
      [.field (.dayOfYear 3), .field (.day 2), .field (.month 2), .field (.year 4), .text [' '],
        .field (.weekday true)]⟩ := by cbv
  have hitems : Item.all "DDDddMMuuuu EEEE".toList = .ok [.field 'D' 3, .field 'd' 2,
      .field 'M' 2, .field 'u' 4, .literal [' '], .field 'E' 4] := by cbv
  have hfixed : ∀ item ∈ [Item.field 'D' 3, .field 'd' 2, .field 'M' 2, .field 'u' 4,
      .literal [' '], .field 'E' 4], item.IsFixedWidth := by
    simp only [List.forall_mem_cons]
    exact ⟨.dayOfYear, .day, .month (by decide), .longYear (by decide),
      .literal (List.forall_mem_singleton.2 (by decide)),
      .weekday, by simp⟩
  have hwithin : IsWithin [.field 'D' 3, .field 'd' 2, .field 'M' 2, .field 'u' 4, .literal [' '],
      .field 'E' 4] ⟨2024, 2, 29, by decide, by decide, by decide⟩ := ⟨by decide, by simp⟩
  have hapart := (separated_iff_yearsApart hfixed).1 (by decide)
  exact ⟨_, _, h, hitems, (read?_print_fixedWidth_iff h hitems hfixed hwithin).2 hapart⟩

/-- The pattern `yyyyMMdd` can be used, but the year takes in the month and the day. -/
theorem DateFormat.not_read?_print_adjacent :
    ∃ format items, ofPattern "yyyyMMdd".toList = .ok format ∧
      Item.all "yyyyMMdd".toList = .ok items ∧ (∀ item ∈ items, item.IsFixedWidth) ∧
      IsWithin items ⟨2011, 12, 3, by decide, by decide, by decide⟩ ∧
      print ⟨2011, 12, 3, by decide, by decide, by decide⟩ items = "20111203".toList ∧
      format.read? "20111203".toList = none := by
  have h : ofPattern "yyyyMMdd".toList = .ok ⟨"yyyyMMdd".toList,
      [.field (.year 4), .field (.month 2), .field (.day 2)]⟩ := by cbv
  have hitems : Item.all "yyyyMMdd".toList =
      .ok [.field 'y' 4, .field 'M' 2, .field 'd' 2] := by cbv
  refine ⟨_, _, h, hitems, ?_, ⟨by decide, by simp⟩, by cbv, by cbv⟩
  simp only [List.forall_mem_cons]
  exact ⟨.longYear (by decide), .month (by decide), .day, by simp⟩

end TodoAudit
