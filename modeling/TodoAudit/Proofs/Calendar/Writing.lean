import TodoAudit.Calendar
import TodoAudit.Proofs.Text.Numeral
import TodoAudit.Proofs.Text.Occurrence

/-!
# Written dates

No two dates are written alike (`chars_injective`), also where the year has a sign. Dates with a
year of four digits are ordered as they are written (`chars_lt_chars_iff`). A date is read back from
what is written (`ofChars?_chars`).
-/

namespace TodoAudit.Date

open Text Text.Decimal

variable {a b d : Date} {y : Int}

/-! ## Months and days -/

theorem month_lt (d : Date) : d.month < 10 ^ 2 := by
  have h := d.month_mem.2
  omega

theorem day_lt (d : Date) : d.day < 10 ^ 2 := by
  have h := d.day_mem.2
  rw [daysInMonth] at h
  split_ifs at h <;> omega

/-- The written month and day, with the dash before each of them. -/
def monthDayText (d : Date) : List Char :=
  '-' :: padded 2 d.month ++ '-' :: padded 2 d.day

theorem chars_eq (d : Date) : d.chars = yearText d.year ++ d.monthDayText := by
  rw [chars, monthDayText, List.append_assoc]

theorem length_monthDayText (d : Date) : d.monthDayText.length = 6 := by
  rw [monthDayText, List.length_append, List.length_cons, List.length_cons,
    length_padded (by decide) d.month_lt, length_padded (by decide) d.day_lt]

theorem monthDayText_lt_iff : a.monthDayText < b.monthDayText ↔
    a.month < b.month ∨ a.month = b.month ∧ a.day < b.day := by
  rw [monthDayText, monthDayText, List.cons_append, List.cons_append, List.cons_lt_cons_self,
    padded_append_lt_iff (by decide) a.month_lt b.month_lt, List.cons_lt_cons_self,
    padded_lt_padded_iff (by decide) a.day_lt b.day_lt]

/-! ## Years -/

/-- The year that is written, with its sign. -/
def yearOf : List Char → Int
  | '-' :: s => -value s
  | '+' :: s => value s
  | s => value s

theorem yearOf_of_digits {s : List Char} (h : ∀ c ∈ s, isDigit c = true) : yearOf s = value s := by
  unfold yearOf
  split
  · exact absurd (h '-' List.mem_cons_self) (by decide)
  · exact absurd (h '+' List.mem_cons_self) (by decide)
  · rfl

/-- A year can be read back from its text. -/
theorem yearOf_yearText (y : Int) : yearOf (yearText y) = y := by
  rw [yearText]
  split_ifs with hneg hmost
  · rw [yearOf, value_padded]
    omega
  · rw [yearOf_of_digits fun c => isDigit_of_mem_padded, value_padded]
    omega
  · rw [yearOf, value_digits]
    omega

theorem yearText_injective : Function.Injective yearText :=
  Function.LeftInverse.injective yearOf_yearText

theorem yearText_of_le (hfirst : 0 ≤ y) (hlast : y ≤ 9999) : yearText y = padded 4 y.natAbs := by
  rw [yearText, if_neg (by omega), if_pos hlast]

/-! ## Whole dates -/

/-- Dates that are written alike are the same, whatever their years. -/
theorem chars_injective : Function.Injective chars := by
  intro a b h
  rw [chars_eq, chars_eq] at h
  obtain ⟨hyear, hrest⟩ := List.append_inj' h (by rw [length_monthDayText, length_monthDayText])
  have hlen : (padded 2 a.month).length = (padded 2 b.month).length :=
    (length_padded (by decide) a.month_lt).trans (length_padded (by decide) b.month_lt).symm
  obtain ⟨hmonth, hday⟩ := List.append_inj hrest (congrArg Nat.succ hlen)
  have hmonth := congrArg value (List.cons.inj hmonth).2
  have hday := congrArg value (List.cons.inj hday).2
  rw [value_padded, value_padded] at hmonth hday
  exact Date.ext (yearText_injective hyear) hmonth hday

/-- While years have four digits, what is written first comes first. -/
theorem chars_lt_chars_iff (ha : 0 ≤ a.year ∧ a.year ≤ 9999) (hb : 0 ≤ b.year ∧ b.year ≤ 9999) :
    a.chars < b.chars ↔ a < b := by
  rw [chars_eq, chars_eq, yearText_of_le ha.1 ha.2, yearText_of_le hb.1 hb.2,
    padded_append_lt_iff (by decide) (by omega) (by omega), monthDayText_lt_iff, lt_iff]
  omega

/-! ## Reading -/

/-- The sign of a written date, and the text behind it. -/
def splitSign : List Char → Int × List Char
  | '-' :: s => (-1, s)
  | '+' :: s => (1, s)
  | s => (1, s)

theorem ofChars?_eq (s : List Char) : ofChars? s = (do
    let (year, rest) ← cutAt? ['-'] (splitSign s).2
    let (month, day) ← cutAt? ['-'] rest
    let d ← ofYearMonthDay? ((splitSign s).1 * value year) (value month) (value day)
    if d.chars = s then some d else none) :=
  rfl

theorem splitSign_of_isDigit {c : Char} (hc : isDigit c = true) (s : List Char) :
    splitSign (c :: s) = (1, c :: s) := by
  unfold splitSign
  split
  · rename_i heq
    cases heq
    exact absurd hc (by decide)
  · rename_i heq
    cases heq
    exact absurd hc (by decide)
  · rfl

/-- The digits of the year end at the first dash behind the sign. -/
theorem splitSign_chars (d : Date) : ∃ sign year,
    splitSign d.chars = (sign, year ++ d.monthDayText) ∧ '-' ∉ year ∧
      sign * value year = d.year := by
  have hdash : ∀ w k, '-' ∉ padded w k := notMem_padded (by decide)
  rw [chars_eq, yearText]
  split_ifs with hneg hmost
  · refine ⟨-1, padded 4 d.year.natAbs, rfl, hdash _ _, ?_⟩
    rw [value_padded]
    omega
  · refine ⟨1, padded 4 d.year.natAbs, ?_, hdash _ _, ?_⟩
    · have hne : padded 4 d.year.natAbs ≠ [] := by simp [padded, digits]
      obtain ⟨c, s, hcons⟩ := List.exists_cons_of_ne_nil hne
      have hc : isDigit c = true := isDigit_of_mem_padded (hcons ▸ List.mem_cons_self)
      rw [hcons, List.cons_append, splitSign_of_isDigit hc]
    · rw [value_padded]
      omega
  · refine ⟨1, digits d.year.natAbs, rfl, notMem_digits (by decide) _, ?_⟩
    rw [value_digits]
    omega

theorem ofYearMonthDay?_self (d : Date) : ofYearMonthDay? d.year d.month d.day = some d := by
  rw [ofYearMonthDay?, dif_pos ⟨d.year_mem, d.month_mem, d.day_mem⟩]

/-- A date is read back from its written form. -/
theorem ofChars?_chars (d : Date) : ofChars? d.chars = some d := by
  obtain ⟨sign, year, hsplit, hdash, hvalue⟩ := d.splitSign_chars
  have hmonth : '-' ∉ padded 2 d.month := notMem_padded (by decide) 2 d.month
  rw [ofChars?_eq, hsplit]
  simp [monthDayText, cutAt?_append_cons, hdash, hmonth, hvalue, value_padded,
    ofYearMonthDay?_self]

end TodoAudit.Date
