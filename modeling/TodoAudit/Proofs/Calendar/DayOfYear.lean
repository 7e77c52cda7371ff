import Mathlib
import TodoAudit.Calendar

/-!
# Finding a date

A date is found again from its year, month and day, and from its year and day of the year
(`ofDayOfYear?_dayOfYear`): the months before it are too short for that day, and the first month
that is long enough is its own.
-/

namespace TodoAudit.Date

variable {y : Int} {m m' n : Nat} {d : Date}

/-- A year, a month and a day make at most one date. -/
theorem ofYearMonthDay?_eq_some_iff :
    ofYearMonthDay? y m n = some d ↔ d.year = y ∧ d.month = m ∧ d.day = n := by
  constructor
  · intro h
    rw [ofYearMonthDay?] at h
    split at h
    · cases h
      exact ⟨rfl, rfl, rfl⟩
    · cases h
  · rintro ⟨rfl, rfl, rfl⟩
    rw [ofYearMonthDay?, dif_pos ⟨d.year_mem, d.month_mem, d.day_mem⟩]

/-- The days before a month count all the months before it. -/
theorem daysBeforeMonth_add_daysInMonth_le (hm : 1 ≤ m) (hlt : m < m') :
    daysBeforeMonth y m + daysInMonth y m ≤ daysBeforeMonth y m' := by
  induction m', hlt using Nat.le_induction with
  | base =>
    obtain ⟨k, rfl⟩ := Nat.exists_eq_add_of_le' hm
    exact le_rfl
  | succ m' hle ih =>
    obtain ⟨k, rfl⟩ := Nat.exists_eq_add_of_le' (Nat.le_trans hm (Nat.le_of_lt hle))
    exact ih.trans (Nat.le_add_right _ _)

/-- No year has more than 366 days. -/
theorem dayOfYear_le (d : Date) : d.dayOfYear ≤ 366 := by
  obtain ⟨hfirst, hlast⟩ := d.month_mem
  have hday := d.day_mem.2
  have hmonth : daysBeforeMonth d.year d.month + daysInMonth d.year d.month ≤
      daysBeforeMonth d.year 13 := daysBeforeMonth_add_daysInMonth_le hfirst (by omega)
  have hfebruary : daysInMonth d.year 2 ≤ 29 := by
    rw [daysInMonth, if_pos rfl]
    split_ifs <;> omega
  have hyear : daysBeforeMonth d.year 13 =
    0 + 31 + daysInMonth d.year 2 + 31 + 30 + 31 + 30 + 31 + 31 + 30 + 31 + 30 + 31 := rfl
  rw [dayOfYear]
  omega

/-- No month before its own has the day of a date. -/
theorem ofYearMonthDay?_of_lt (hm : 1 ≤ m) (hlt : m < d.month) :
    ofYearMonthDay? d.year m (d.dayOfYear - daysBeforeMonth d.year m) = none := by
  have hle := daysBeforeMonth_add_daysInMonth_le (y := d.year) hm hlt
  have hday := d.day_mem.1
  rw [ofYearMonthDay?, dif_neg]
  rintro ⟨-, -, -, hmost⟩
  rw [dayOfYear] at hmost
  omega

/-- A date is found again from its year and its day of the year. -/
theorem ofDayOfYear?_dayOfYear (d : Date) : ofDayOfYear? d.year d.dayOfYear = some d := by
  obtain ⟨hfirst, hlast⟩ := d.month_mem
  rw [ofDayOfYear?, List.findSome?_eq_some_iff]
  refine ⟨List.range' 1 (d.month - 1), d.month, List.range' (d.month + 1) (12 - d.month), ?_, ?_,
    ?_⟩
  · have happ := @List.range'_append_1 1 (d.month - 1) (13 - d.month)
    rw [show 1 + (d.month - 1) = d.month by omega,
      show 13 - d.month = 12 - d.month + 1 by omega, List.range'_succ] at happ
    rw [happ]
    congr 1
    omega
  · rw [ofYearMonthDay?_eq_some_iff, dayOfYear]
    exact ⟨rfl, rfl, by omega⟩
  · intro m hm
    rw [List.mem_range'_1] at hm
    exact ofYearMonthDay?_of_lt hm.1 (by omega)

end TodoAudit.Date
