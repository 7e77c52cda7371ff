import Mathlib
import TodoAudit.Proofs.Calendar.Writing
import TodoAudit.Proofs.DatePattern.Items
import TodoAudit.Proofs.DatePattern.Rendering
import TodoAudit.Proofs.Text.Trimming

/-!
# Printed dates

Of the ways to write a date by a pattern, the printed one has as many digits for each number as the
pattern has letters, or as many more as are needed. It is read as it was meant if no number that has
room for more digits stands before another digit (`renders_print`).
-/

namespace TodoAudit.DatePattern

open Text Text.Decimal

variable {d : Date} {letter : Char} {count most : Nat} {word rest chunk : List Char}
  {item : Item} {items : List Item}

/-! ## Numbers and names -/

/-- The most digits of the number that a run of letters stands for, if it stands for one. -/
def mostDigits? (letter : Char) (count : Nat) : Option Nat :=
  if letter ∈ ['y', 'u'] then if count = 2 then some 2 else some 9
  else if letter ∈ ['M', 'L'] then if count ≤ 2 then some 2 else none
  else if letter = 'd' then some 2
  else if letter = 'D' then some 3
  else none

/-- The number that a run of letters states about a date. -/
def numberOf (d : Date) (letter : Char) (count : Nat) : Int :=
  if letter ∈ ['y', 'u'] then if count = 2 then d.year - 2000 else d.year
  else if letter ∈ ['M', 'L'] then d.month
  else if letter = 'd' then d.day
  else d.dayOfYear

/-- The name that a run of letters states about a date. -/
def nameOf (d : Date) (letter : Char) (count : Nat) : List Char :=
  let name := if letter = 'E' then d.weekday.name else d.monthName
  if count = 4 then name else name.take 3

theorem writes_of_numeral (h : mostDigits? letter count = some most)
    (hword : Numeral count most (numberOf d letter count) word rest) :
    Writes d (.field letter count) word rest := by
  unfold mostDigits? at h
  unfold numberOf at hword
  split_ifs at h with hyear htwo hmonth hcount hday hdayOfYear <;> cases h
  · rw [if_pos hyear, if_pos htwo] at hword
    exact .shortYear hyear htwo (htwo ▸ hword)
  · rw [if_pos hyear, if_neg htwo] at hword
    exact .year hyear htwo hword
  · rw [if_neg hyear, if_pos hmonth] at hword
    exact .month hmonth hcount hword
  · rw [if_neg hyear, if_neg hmonth, if_pos hday] at hword
    exact .day hday hword
  · rw [if_neg hyear, if_neg hmonth, if_neg hday] at hword
    exact .dayOfYear hdayOfYear hword

/-- A run that stands for no number stands for the name of a weekday or of a month. -/
theorem weekday_or_month_of_mostDigits? (hfield : (Field.ofRun? letter count).isSome)
    (h : mostDigits? letter count = none) :
    letter = 'E' ∨ letter ≠ 'E' ∧ letter ∈ ['M', 'L'] ∧ (count = 3 ∨ count = 4) := by
  have hyear : letter ∉ ['y', 'u'] := by
    intro hmem
    rw [mostDigits?, if_pos hmem] at h
    split at h <;> cases h
  by_cases hmonth : letter ∈ ['M', 'L']
  · have hne : letter ≠ 'E' := by
      rintro rfl
      exact absurd hmonth (by decide)
    rw [mostDigits?, if_neg hyear, if_pos hmonth] at h
    rw [Field.ofRun?, if_neg hyear, if_pos hmonth] at hfield
    refine .inr ⟨hne, hmonth, ?_⟩
    split_ifs at h hfield
    · omega
    · omega
    · omega
    · cases hfield
  · rw [mostDigits?, if_neg hyear, if_neg hmonth] at h
    rw [Field.ofRun?, if_neg hyear, if_neg hmonth] at hfield
    split_ifs at h with hday hdayOfYear
    rw [if_neg hday, if_neg hdayOfYear] at hfield
    by_contra hnot
    rw [if_neg fun heq => hnot (.inl heq)] at hfield
    cases hfield

theorem writes_nameOf (hfield : (Field.ofRun? letter count).isSome)
    (h : mostDigits? letter count = none) :
    Writes d (.field letter count) (nameOf d letter count) rest := by
  rcases weekday_or_month_of_mostDigits? hfield h with hweekday | ⟨hne, hmonth, hcount⟩
  · rw [nameOf, if_pos hweekday]
    exact .weekday hweekday rfl
  · rw [nameOf, if_neg hne]
    exact .monthName hmonth (by omega) rfl

theorem not_mem_year_of_mem_month (h : letter ∈ ['M', 'L']) : letter ∉ ['y', 'u'] := by
  rcases List.mem_pair.1 h with rfl | rfl <;> decide

/-- Where a run stands for a number, that number is what is written for it. -/
theorem numeral_of_writes (h : mostDigits? letter count = some most)
    (hword : Writes d (.field letter count) word rest) :
    Numeral count most (numberOf d letter count) word rest := by
  cases hword with
  | year hyear hne hnumeral =>
    rw [mostDigits?, if_pos hyear, if_neg hne] at h
    cases h
    rwa [numberOf, if_pos hyear, if_neg hne]
  | shortYear hyear htwo hnumeral =>
    subst htwo
    rw [mostDigits?, if_pos hyear, if_pos rfl] at h
    cases h
    rwa [numberOf, if_pos hyear, if_pos rfl]
  | month hmonth hcount hnumeral =>
    have hyear := not_mem_year_of_mem_month hmonth
    rw [mostDigits?, if_neg hyear, if_pos hmonth, if_pos hcount] at h
    cases h
    rwa [numberOf, if_neg hyear, if_pos hmonth]
  | monthName hmonth hcount _ =>
    rw [mostDigits?, if_neg (not_mem_year_of_mem_month hmonth), if_pos hmonth,
      if_neg (Nat.not_le.2 hcount)] at h
    cases h
  | day hday hnumeral =>
    subst hday
    cases h
    exact hnumeral
  | dayOfYear hdayOfYear hnumeral =>
    subst hdayOfYear
    cases h
    exact hnumeral
  | weekday hweekday _ =>
    subst hweekday
    cases h

/-- Where a run stands for a name, that name is what is written for it. -/
theorem eq_nameOf_of_writes (h : mostDigits? letter count = none)
    (hword : Writes d (.field letter count) word rest) : word = nameOf d letter count := by
  cases hword with
  | year hyear hne _ =>
    rw [mostDigits?, if_pos hyear, if_neg hne] at h
    cases h
  | shortYear hyear htwo _ =>
    rw [mostDigits?, if_pos hyear, if_pos htwo] at h
    cases h
  | month hmonth hcount _ =>
    rw [mostDigits?, if_neg (not_mem_year_of_mem_month hmonth), if_pos hmonth, if_pos hcount] at h
    cases h
  | monthName hmonth _ hname =>
    have hne : letter ≠ 'E' := by
      rintro rfl
      exact absurd hmonth (by decide)
    rw [hname, nameOf, if_neg hne]
  | day hday _ =>
    subst hday
    cases h
  | dayOfYear hdayOfYear _ =>
    subst hdayOfYear
    cases h
  | weekday hweekday hname => rw [hname, nameOf, if_pos hweekday]

/-- A run that stands for a number has at most as many letters as the number has digits. -/
theorem le_mostDigits (hfield : (Field.ofRun? letter count).isSome)
    (h : mostDigits? letter count = some most) : 0 < count ∧ count ≤ most := by
  unfold mostDigits? at h
  unfold Field.ofRun? at hfield
  split_ifs at h hfield <;> cases h <;> first | omega | cases hfield

/-! ## Characters of what is written -/

theorem isVisible_of_isAlpha {c : Char} (h : c.isAlpha = true) :
    isBlank c = false ∧ isDigit c = false := by
  have hrange : 65 ≤ c.toNat ∧ c.toNat ≤ 122 := by
    simp only [Char.isAlpha, Char.isUpper, Char.isLower, Bool.or_eq_true, Bool.and_eq_true,
      decide_eq_true_eq, UInt32.le_iff_toNat_le, ge_iff_le] at h
    change 65 ≤ c.val.toNat ∧ c.val.toNat ≤ 122
    have hbounds : 'A'.val.toNat = 65 ∧ 'Z'.val.toNat = 90 ∧ 'a'.val.toNat = 97 ∧
      'z'.val.toNat = 122 := by decide
    omega
  refine ⟨isBlank_eq_false (by omega) (by omega), ?_⟩
  rw [← Bool.not_eq_true, isDigit_iff]
  omega

theorem isBlank_of_isDigit {c : Char} (h : isDigit c = true) : isBlank c = false := by
  rw [isDigit_iff] at h
  exact isBlank_eq_false (by omega) (by omega)

theorem monthName_spec (d : Date) : d.monthName.all Char.isAlpha ∧ 3 ≤ d.monthName.length := by
  have hall : ∀ m ∈ Field.months, m.1.all Char.isAlpha ∧ 3 ≤ m.1.length := by decide
  exact hall _ (Field.mem_months_iff.2 rfl)

theorem weekdayName_spec (w : Weekday) : w.name.all Char.isAlpha ∧ 3 ≤ w.name.length := by
  cases w <;> decide

/-- Names are made of letters, at least three of them. -/
theorem nameOf_spec (d : Date) (letter : Char) (count : Nat) :
    (nameOf d letter count).all Char.isAlpha ∧ 3 ≤ (nameOf d letter count).length := by
  have hspec : ∀ name : List Char, name.all Char.isAlpha ∧ 3 ≤ name.length →
      (if count = 4 then name else name.take 3).all Char.isAlpha ∧
        3 ≤ (if count = 4 then name else name.take 3).length := by
    rintro name ⟨hall, hlength⟩
    rw [List.all_eq_true] at hall
    split
    · exact ⟨List.all_eq_true.2 hall, hlength⟩
    · rw [List.length_take, List.all_eq_true]
      exact ⟨fun c hc => hall c (List.mem_of_mem_take hc), by omega⟩
  rw [nameOf]
  refine hspec _ ?_
  split
  · exact weekdayName_spec _
  · exact monthName_spec d

/-! ## Printing -/

namespace Item

/-- The item as it is printed for the date. -/
def print (d : Date) : Item → List Char
  | .literal t => t
  | .quote => ['\'']
  | .field letter count =>
    if (mostDigits? letter count).isSome then padded count (numberOf d letter count).toNat
    else nameOf d letter count

/-- The item is one that an accepted pattern can have. -/
def IsKnown : Item → Prop
  | .literal t => t ≠ []
  | .quote => True
  | .field letter count => (Field.ofRun? letter count).isSome

/-- The number that the item states about the date has at most as many digits as it may have. -/
def Covers (d : Date) : Item → Prop
  | .field letter count => ∀ most, mostDigits? letter count = some most →
      0 ≤ numberOf d letter count ∧ numberOf d letter count < 10 ^ most
  | _ => True

/-- A digit behind the item would be read as one of its own. -/
def isOpen : Item → Bool
  | .field letter count => (mostDigits? letter count).any fun most => count < most
  | _ => false

/-- There is a digit at the beginning of what is written for the item. -/
def beginsWithDigit : Item → Bool
  | .literal t => t.head?.any isDigit
  | .quote => false
  | .field letter count => (mostDigits? letter count).isSome

theorem le_length_padded (w k : Nat) : w ≤ (padded w k).length := by
  rw [padded, List.length_append, List.length_replicate]
  omega

theorem length_padded_le {w k : Nat} (hpos : 0 < most) (hw : w ≤ most) (hk : k < 10 ^ most) :
    (padded w k).length ≤ most := by
  have hle : (digits k).length ≤ most := (Nat.length_toDigits_le_iff (by decide) hpos).2 hk
  rw [padded, List.length_append, List.length_replicate]
  omega

/-- What is printed for a known item is not empty, and only literal text has blanks in it. -/
theorem print_spec (h : item.IsKnown) : item.print d ≠ [] ∧
    ((∃ t, item = .literal t) ∨ ∀ c ∈ item.print d, isBlank c = false) := by
  cases item with
  | literal t => exact ⟨h, .inl ⟨t, rfl⟩⟩
  | quote => exact ⟨by simp [print], .inr fun c hc => by rw [List.mem_singleton.1 hc]; decide⟩
  | field letter count =>
    rw [print]
    split
    · rename_i hnumber
      obtain ⟨most, hmost⟩ := Option.isSome_iff_exists.1 hnumber
      have hpos := (le_mostDigits h hmost).1.trans_le
        (le_length_padded count (numberOf d letter count).toNat)
      exact ⟨List.ne_nil_of_length_pos hpos,
        .inr fun c hc => isBlank_of_isDigit (isDigit_of_mem_padded hc)⟩
    · obtain ⟨hall, hlength⟩ := nameOf_spec d letter count
      rw [List.all_eq_true] at hall
      exact ⟨List.ne_nil_of_length_pos (by omega),
        .inr fun c hc => (isVisible_of_isAlpha (hall c hc)).1⟩

/-- What is printed for an item begins with a digit only if it is said to. -/
theorem exists_cons_print (h : item.IsKnown) (hdigit : item.beginsWithDigit = false) :
    ∃ c rest, item.print d = c :: rest ∧ isDigit c = false := by
  cases item with
  | literal t =>
    obtain ⟨c, rest, rfl⟩ := List.exists_cons_of_ne_nil h
    exact ⟨c, rest, rfl, hdigit⟩
  | quote => exact ⟨'\'', [], rfl, by decide⟩
  | field letter count =>
    rw [beginsWithDigit] at hdigit
    obtain ⟨hall, hlength⟩ := nameOf_spec d letter count
    obtain ⟨c, rest, hname⟩ := List.exists_cons_of_ne_nil
      (List.ne_nil_of_length_pos (by omega : 0 < (nameOf d letter count).length))
    rw [List.all_eq_true] at hall
    have hc : c ∈ nameOf d letter count := by rw [hname]; exact List.mem_cons_self
    refine ⟨c, rest, ?_, (isVisible_of_isAlpha (hall c hc)).2⟩
    rw [print, hdigit, if_neg Bool.false_ne_true, hname]

/-- What is printed for an item is read as it was meant. -/
theorem writes_print (h : item.IsKnown) (hcovers : item.Covers d)
    (hrest : item.isOpen → rest = [] ∨ ∃ c tail, rest = c :: tail ∧ isDigit c = false) :
    Writes d item (item.print d) rest := by
  cases item with
  | literal t => exact .literal
  | quote => exact .quote
  | field letter count =>
    rw [print]
    split
    · rename_i hnumber
      obtain ⟨most, hmost⟩ := Option.isSome_iff_exists.1 hnumber
      obtain ⟨hfirst, hlast⟩ := hcovers most hmost
      obtain ⟨hpos, hle⟩ := le_mostDigits h hmost
      have hnat : (numberOf d letter count).toNat < 10 ^ most := by
        rw [Int.toNat_lt hfirst]
        exact_mod_cast hlast
      have hlength := length_padded_le (hpos.trans_le hle) hle hnat
      refine writes_of_numeral hmost ⟨⟨fun c hc => isDigit_of_mem_padded hc,
        le_length_padded _ _, hlength, ?_⟩, ?_⟩
      · by_cases hfull : count = most
        · exact .inl (hlength.antisymm (hfull ▸ le_length_padded _ _))
        · refine .inr (hrest ?_)
          rw [isOpen, hmost, Option.any_some]
          exact decide_eq_true (by omega)
      · rw [value_padded, Int.toNat_of_nonneg hfirst]
    · rename_i hname
      exact writes_nameOf h (by simpa using hname)

/-- The number that the item states about the date has at most as many digits as the item has
letters. -/
def Fits (d : Date) : Item → Prop
  | .field letter count => ∀ most, mostDigits? letter count = some most →
      0 ≤ numberOf d letter count ∧ numberOf d letter count < 10 ^ count
  | _ => True

theorem Fits.covers (hknown : item.IsKnown) (h : item.Fits d) : item.Covers d := by
  cases item with
  | field letter count =>
    intro most hmost
    obtain ⟨hfirst, hlast⟩ := h most hmost
    have hle := (le_mostDigits hknown hmost).2
    exact ⟨hfirst, hlast.trans_le (pow_le_pow_right₀ (by norm_num) hle)⟩
  | _ => trivial

/-- A number that is no year fits if it has as many letters as it may have digits. -/
theorem fits_of_not_isOpen (hyear : letter ∉ ['y', 'u']) (h : (field letter count).isOpen = false) :
    (field letter count).Fits d := by
  intro most hmost
  have hwide : most ≤ count := by
    rw [isOpen, hmost, Option.any_some, decide_eq_false_iff_not] at h
    omega
  have hpow : (10 : Int) ^ most ≤ 10 ^ count := pow_le_pow_right₀ (by norm_num) hwide
  have hmonth := d.month_lt
  have hday := d.day_lt
  have hdayOfYear := d.dayOfYear_le
  rw [mostDigits?, if_neg hyear] at hmost
  rw [numberOf, if_neg hyear]
  split_ifs at hmost ⊢ <;> cases hmost <;> omega

theorem length_print_field (hknown : (field letter count).IsKnown)
    (hfits : (field letter count).Fits d) (hmost : mostDigits? letter count = some most) :
    ((field letter count).print d).length = count := by
  obtain ⟨hfirst, hlast⟩ := hfits most hmost
  rw [print, hmost, Option.isSome_some, if_pos rfl]
  refine length_padded (le_mostDigits hknown hmost).1 ?_
  rw [Int.toNat_lt hfirst]
  exact_mod_cast hlast

end Item

/-- The printed date. -/
def print (d : Date) (items : List Item) : List Char :=
  items.flatMap (Item.print d)

/-- No item that would take in a digit stands before one that begins with a digit. -/
def Separated (items : List Item) : Prop :=
  items.IsChain fun a b => a.isOpen → ¬ b.beginsWithDigit

instance (items : List Item) : Decidable (Separated items) :=
  inferInstanceAs (Decidable (List.IsChain _ items))

/-- A printed date is a written form of the date. -/
theorem renders_print (hknown : ∀ item ∈ items, item.IsKnown)
    (hcovers : ∀ item ∈ items, item.Covers d) (hsep : Separated items) :
    Renders d items (print d items) := by
  induction items with
  | nil => exact .nil
  | cons item items ih =>
    rw [List.forall_mem_cons] at hknown hcovers
    rw [print, List.flatMap_cons]
    refine .cons (Item.writes_print hknown.1 hcovers.1 ?_) (ih hknown.2 hcovers.2 hsep.tail)
    intro hopen
    cases items with
    | nil => exact .inl rfl
    | cons next items =>
      have hdigit : next.beginsWithDigit = false := by
        simpa using (List.isChain_cons_cons.1 hsep).1 hopen
      obtain ⟨c, rest, hprint, hc⟩ :=
        Item.exists_cons_print (d := d) (hknown.2 next List.mem_cons_self) hdigit
      exact .inr ⟨c, _, by rw [List.flatMap_cons, hprint]; rfl, hc⟩

/-! ## Ends of a printed date -/

/-- A printed date begins like the first item. -/
theorem head_print {c : Char} (hknown : ∀ item ∈ items, item.IsKnown)
    (h : (print d items).head? = some c) :
    ∃ item, items.head? = some item ∧ (item.print d).head? = some c := by
  cases items with
  | nil => cases h
  | cons item items =>
    have hne := (Item.print_spec (d := d) (hknown item List.mem_cons_self)).1
    rw [print, List.flatMap_cons, List.head?_append_of_ne_nil _ hne] at h
    exact ⟨item, rfl, h⟩

/-- A printed date ends like the last item. -/
theorem getLast_print {c : Char} (hknown : ∀ item ∈ items, item.IsKnown)
    (h : (print d items).getLast? = some c) :
    ∃ item, items.getLast? = some item ∧ (item.print d).getLast? = some c := by
  rcases List.eq_nil_or_concat items with rfl | ⟨init, item, rfl⟩
  · cases h
  · have hne := (Item.print_spec (d := d) (hknown item (by simp))).1
    rw [print, List.concat_eq_append, List.flatMap_append, List.flatMap_singleton,
      List.getLast?_append_of_ne_nil _ hne] at h
    exact ⟨item, by simp, h⟩

/-- What is written by a pattern begins with the literal text at its beginning. -/
theorem Renders.prefix_of_literal {t s : List Char} (h : Renders d items s)
    (hitem : items.head? = some (.literal t)) : t <+: s := by
  cases h with
  | nil => cases hitem
  | cons hword hrest =>
    cases hitem
    rw [writes_literal_iff.1 hword]
    exact List.prefix_append _ _

/-- What is written by a pattern ends with the literal text at its end. -/
theorem Renders.suffix_of_literal {t s : List Char} (h : Renders d items s)
    (hitem : items.getLast? = some (.literal t)) : t <:+ s := by
  induction h with
  | nil => cases hitem
  | @cons item items word rest hword hrest ih =>
    cases items with
    | nil =>
      cases hitem
      rw [writes_literal_iff.1 hword, renders_nil_iff.1 hrest, List.append_nil]
    | cons next items =>
      rw [List.getLast?_cons_cons] at hitem
      exact (ih hitem).trans (List.suffix_append _ _)

/-! ## Accepted patterns -/

theorem isKnown_of_spells {piece : Piece} (hspells : Item.Spells chunk item)
    (hpiece : Piece.ofItem item = .ok piece) : item.IsKnown := by
  cases hspells with
  | field _ _ =>
    rw [Piece.ofItem] at hpiece
    split at hpiece
    · rename_i f hfield
      exact Option.isSome_iff_exists.2 ⟨f, hfield⟩
    · cases hpiece
  | plain hne _ => exact hne
  | quoted hne _ => exact hne
  | quote => trivial

/-- The items of an accepted pattern are known. -/
theorem isKnown_of_ofPattern {pattern : List Char} {format : DateFormat}
    (h : DateFormat.ofPattern pattern = .ok format) (hitems : Item.all pattern = .ok items) :
    ∀ item ∈ items, item.IsKnown := by
  obtain ⟨found, hfound, hpieces, -⟩ := DateFormat.exists_items_of_ofPattern h
  cases hfound.symm.trans hitems
  obtain ⟨chunks, -, hchunks⟩ := Item.exists_chunks_of_all hitems
  intro item hitem
  obtain ⟨chunk, -, hspells⟩ := Success.exists_mem_of_forall₂ hchunks.flip hitem
  obtain ⟨piece, -, hpiece⟩ := Success.exists_mem_of_forall₂ hpieces hitem
  exact isKnown_of_spells hspells hpiece

end TodoAudit.DatePattern
