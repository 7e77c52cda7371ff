import TodoAudit.Proofs.DatePattern.Reading
import TodoAudit.Proofs.Text.Numeral
import TodoAudit.Proofs.Text.Occurrence

/-!
# Written forms of a date

`Renders d items text` says that `text` is a way to write the date `d` by a pattern: each item of
the pattern, in its order, is written in a way that is admitted for it, and nothing else stands in
the text. The main statement is `read?_eq_some_iff_renders`: a format reads a date from a text
exactly if the text is such a way to write that date. So every field of the pattern is checked, also
one that says again what another has said.
-/

namespace TodoAudit

open Text Text.Decimal

/-- The English name of the date's month. -/
def Date.monthName (d : Date) : List Char :=
  monthNames.getD (d.month - 1) []

namespace DatePattern

/-! ## What is admitted -/

/-- The word is a way to write the item for the date, with the text `rest` behind it. Four letters
ask for a whole name and fewer for its first three letters. -/
inductive Writes (d : Date) : (item : Item) → (word rest : List Char) → Prop
  | literal {t rest : List Char} : Writes d (.literal t) t rest
  | quote {rest : List Char} : Writes d .quote ['\''] rest
  | year {letter : Char} {count : Nat} {word rest : List Char} :
      letter ∈ ['y', 'u'] → count ≠ 2 → Numeral count 9 d.year word rest →
      Writes d (.field letter count) word rest
  | shortYear {letter : Char} {count : Nat} {word rest : List Char} :
      letter ∈ ['y', 'u'] → count = 2 → Numeral 2 2 (d.year - 2000) word rest →
      Writes d (.field letter count) word rest
  | month {letter : Char} {count : Nat} {word rest : List Char} :
      letter ∈ ['M', 'L'] → count ≤ 2 → Numeral count 2 d.month word rest →
      Writes d (.field letter count) word rest
  | monthName {letter : Char} {count : Nat} {word rest : List Char} :
      letter ∈ ['M', 'L'] → 2 < count →
      word = (if count = 4 then d.monthName else d.monthName.take 3) →
      Writes d (.field letter count) word rest
  | day {letter : Char} {count : Nat} {word rest : List Char} :
      letter = 'd' → Numeral count 2 d.day word rest → Writes d (.field letter count) word rest
  | dayOfYear {letter : Char} {count : Nat} {word rest : List Char} :
      letter = 'D' → Numeral count 3 d.dayOfYear word rest →
      Writes d (.field letter count) word rest
  | weekday {letter : Char} {count : Nat} {word rest : List Char} :
      letter = 'E' →
      word = (if count = 4 then d.weekday.name else d.weekday.name.take 3) →
      Writes d (.field letter count) word rest

/-- The text is a way to write the date by the items, one after the other. -/
inductive Renders (d : Date) : (items : List Item) → (text : List Char) → Prop
  | nil : Renders d [] []
  | cons {item : Item} {items : List Item} {word rest : List Char} :
      Writes d item word rest → Renders d items rest → Renders d (item :: items) (word ++ rest)

variable {letter : Char} {count least most : Nat} {word rest s : List Char} {d : Date} {f : Field}
  {fact : Fact} {item : Item} {items : List Item}
  {α : Type} {names : List (List Char × α)} {whole : Bool}

theorem renders_nil_iff : Renders d [] s ↔ s = [] := by
  constructor
  · intro h
    cases h
    rfl
  · rintro rfl
    exact .nil

theorem renders_cons_iff : Renders d (item :: items) s ↔
    ∃ word rest, s = word ++ rest ∧ Writes d item word rest ∧ Renders d items rest := by
  constructor
  · intro h
    cases h with
    | cons hword hrest => exact ⟨_, _, rfl, hword, hrest⟩
  · rintro ⟨word, rest, rfl, hword, hrest⟩
    exact .cons hword hrest

theorem writes_field_iff : Writes d (.field letter count) word rest ↔
    letter ∈ ['y', 'u'] ∧ count ≠ 2 ∧ Numeral count 9 d.year word rest ∨
    letter ∈ ['y', 'u'] ∧ count = 2 ∧ Numeral 2 2 (d.year - 2000) word rest ∨
    letter ∈ ['M', 'L'] ∧ count ≤ 2 ∧ Numeral count 2 d.month word rest ∨
    letter ∈ ['M', 'L'] ∧ 2 < count ∧
      word = (if count = 4 then d.monthName else d.monthName.take 3) ∨
    letter = 'd' ∧ Numeral count 2 d.day word rest ∨
    letter = 'D' ∧ Numeral count 3 d.dayOfYear word rest ∨
    letter = 'E' ∧ word = (if count = 4 then d.weekday.name else d.weekday.name.take 3) := by
  constructor
  · intro h
    cases h <;> simp_all
  · rintro (⟨hl, hc, hn⟩ | ⟨hl, hc, hn⟩ | ⟨hl, hc, hn⟩ | ⟨hl, hc, hw⟩ | ⟨hl, hn⟩ | ⟨hl, hn⟩ |
      ⟨hl, hw⟩)
    · exact .year hl hc hn
    · exact .shortYear hl hc hn
    · exact .month hl hc hn
    · exact .monthName hl hc hw
    · exact .day hl hn
    · exact .dayOfYear hl hn
    · exact .weekday hl hw

namespace Field

/-! ## Numbers -/

theorem readNumber?_eq_some_iff {n : Nat} : readNumber? least most s = some (n, rest) ↔
    ∃ word, s = word ++ rest ∧ IsRun least most word rest ∧ value word = n := by
  rw [readNumber?, Option.map_eq_some_iff]
  constructor
  · rintro ⟨⟨word, tail⟩, hrun, h⟩
    cases h
    obtain ⟨rfl, hlongest⟩ := run?_eq_some_iff.1 hrun
    exact ⟨word, rfl, hlongest, rfl⟩
  · rintro ⟨word, rfl, hrun, rfl⟩
    exact ⟨(word, rest), run?_eq_some_iff.2 ⟨rfl, hrun⟩, rfl⟩

/-! ## Names -/

/-- None of the names begins another one, as they are written. -/
def Distinct (whole : Bool) (names : List (List Char × α)) : Prop :=
  names.Pairwise fun a b =>
    ¬ written whole a.1 <+: written whole b.1 ∧ ¬ written whole b.1 <+: written whole a.1

theorem distinct_months (whole : Bool) : Distinct whole months := by
  unfold Distinct
  cases whole <;> decide +kernel

theorem distinct_weekdays (whole : Bool) : Distinct whole weekdays := by
  unfold Distinct
  cases whole <;> decide +kernel

/-- Eating a name finds the one with which the text begins. -/
theorem readName?_eq_some_iff {v : α} (h : Distinct whole names) :
    readName? whole names s = some (v, rest) ↔
      ∃ name, (name, v) ∈ names ∧ s = written whole name ++ rest := by
  constructor
  · intro hs
    obtain ⟨⟨name, v'⟩, hmem, hstrip⟩ := List.exists_of_findSome?_eq_some hs
    obtain ⟨tail, htail, heq⟩ := Option.map_eq_some_iff.1 hstrip
    cases heq
    exact ⟨name, hmem, strip?_eq_some_iff.1 htail⟩
  · rintro ⟨name, hmem, rfl⟩
    obtain ⟨front, back, rfl⟩ := List.append_of_mem hmem
    refine List.findSome?_eq_some_iff.2 ⟨front, (name, v), back, rfl, ?_, ?_⟩
    · simp [strip?_eq_some_iff.2]
    · rintro ⟨other, w⟩ hother
      have hne := (List.pairwise_append.1 h).2.2 (other, w) hother (name, v) List.mem_cons_self
      refine Option.map_eq_none_iff.2 (strip?_eq_none_iff.2 fun hpre => ?_)
      rcases List.prefix_or_prefix_of_prefix hpre (List.prefix_append _ _) with hp | hp
      · exact hne.1 hp
      · exact hne.2 hp

theorem mem_months_iff {name : List Char} : (name, d.month) ∈ months ↔ name = d.monthName := by
  obtain ⟨hfirst, hlast⟩ := d.month_mem
  have hlt : d.month - 1 < monthNames.length := by
    rw [show monthNames.length = 12 from rfl]
    omega
  rw [months, List.mk_mem_zipIdx_iff_le_and_getElem?_sub, Date.monthName,
    List.getD_eq_getElem?_getD, List.getElem?_eq_getElem hlt]
  simp [hfirst, eq_comm]

theorem mem_weekdays_iff {name : List Char} {w : Weekday} :
    (name, w) ∈ weekdays ↔ name = w.name := by
  rw [weekdays, List.mem_map]
  constructor
  · rintro ⟨w', -, h⟩
    cases h
    rfl
  · rintro rfl
    exact ⟨w, by cases w <;> decide, rfl⟩

/-! ## Fields -/

/-- Where a fact is true of one number only, eating a number gives a true fact exactly if it is that
number. -/
theorem exists_readNumber?_holds_iff (make : Nat → Fact) {n : Int}
    (hmake : ∀ k, (make k).Holds d ↔ (k : Int) = n) :
    (∃ fact, (readNumber? least most (word ++ rest)).map (fun (k, rest) => (make k, rest)) =
      some (fact, rest) ∧ fact.Holds d) ↔ Numeral least most n word rest := by
  constructor
  · rintro ⟨fact, h, hfact⟩
    obtain ⟨⟨k, tail⟩, hread, heq⟩ := Option.map_eq_some_iff.1 h
    cases heq
    obtain ⟨word', hword, hrun, rfl⟩ := readNumber?_eq_some_iff.1 hread
    rw [List.append_cancel_right hword]
    exact ⟨hrun, (hmake _).1 hfact⟩
  · rintro ⟨hrun, hvalue⟩
    have hread := readNumber?_eq_some_iff.2 ⟨word, rfl, hrun, rfl⟩
    exact ⟨_, Option.map_eq_some_iff.2 ⟨_, hread, rfl⟩, (hmake _).2 hvalue⟩

/-- Where a fact is true of one thing only, eating a name gives a true fact exactly if it is the
name of that thing. -/
theorem exists_readName?_holds_iff (make : α → Fact) {v : α} {name : List Char}
    (hmake : ∀ w, (make w).Holds d ↔ v = w) (hnames : Distinct whole names)
    (hname : ∀ other, (other, v) ∈ names ↔ other = name) :
    (∃ fact, (readName? whole names (word ++ rest)).map (fun (w, rest) => (make w, rest)) =
      some (fact, rest) ∧ fact.Holds d) ↔ word = written whole name := by
  constructor
  · rintro ⟨fact, h, hfact⟩
    obtain ⟨⟨w, tail⟩, hread, heq⟩ := Option.map_eq_some_iff.1 h
    cases heq
    obtain ⟨other, hmem, hword⟩ := (readName?_eq_some_iff hnames).1 hread
    rw [← (hmake w).1 hfact, hname] at hmem
    rw [List.append_cancel_right hword, hmem]
  · rintro rfl
    have hread : readName? whole names (written whole name ++ rest) = some (v, rest) :=
      (readName?_eq_some_iff hnames).2 ⟨name, (hname name).2 rfl, rfl⟩
    exact ⟨_, Option.map_eq_some_iff.2 ⟨_, hread, rfl⟩, (hmake v).2 rfl⟩

/-- The word states what the field asks for, truly for the date. -/
def Shows (d : Date) (word rest : List Char) : Field → Prop
  | .year least => Numeral least 9 d.year word rest
  | .shortYear => Numeral 2 2 (d.year - 2000) word rest
  | .month least => Numeral least 2 d.month word rest
  | .monthName whole => word = written whole d.monthName
  | .day least => Numeral least 2 d.day word rest
  | .dayOfYear least => Numeral least 3 d.dayOfYear word rest
  | .weekday whole => word = written whole d.weekday.name

/-- Fields read exactly what shows them, and as a true fact. -/
theorem exists_read?_holds_iff (f : Field) :
    (∃ fact, f.read? (word ++ rest) = some (fact, rest) ∧ fact.Holds d) ↔
      f.Shows d word rest := by
  cases f with
  | year least => exact exists_readNumber?_holds_iff .year fun k => eq_comm
  | shortYear =>
    refine exists_readNumber?_holds_iff (fun k => .year (2000 + k)) ?_
    intro k
    rw [Fact.Holds]
    omega
  | month least =>
    refine exists_readNumber?_holds_iff .month ?_
    intro k
    rw [Fact.Holds, eq_comm, Nat.cast_inj]
  | monthName whole =>
    exact exists_readName?_holds_iff .month (fun k => Iff.rfl) (distinct_months whole)
      fun name => mem_months_iff
  | day least =>
    refine exists_readNumber?_holds_iff .day ?_
    intro k
    rw [Fact.Holds, eq_comm, Nat.cast_inj]
  | dayOfYear least =>
    refine exists_readNumber?_holds_iff .dayOfYear ?_
    intro k
    rw [Fact.Holds, eq_comm, Nat.cast_inj]
  | weekday whole =>
    exact exists_readName?_holds_iff .weekday (fun w => Iff.rfl) (distinct_weekdays whole)
      fun name => mem_weekdays_iff

/-- The field that a run of letters stands for is shown exactly by what the run admits. -/
theorem writes_iff_shows (h : ofRun? letter count = some f) :
    Writes d (.field letter count) word rest ↔ f.Shows d word rest := by
  rw [writes_field_iff]
  unfold ofRun? at h
  split_ifs at h with hy h2 h9 hm h12 h3 h4 hd h12 hD h13 hE h13 h4 <;> cases h
  · rcases (by simpa using hy : letter = 'y' ∨ letter = 'u') with rfl | rfl <;> simp [Shows, h2]
  · rcases (by simpa using hy : letter = 'y' ∨ letter = 'u') with rfl | rfl <;> simp [Shows, h2]
  · have hle : count ≤ 2 := by omega
    rcases (by simpa using hm : letter = 'M' ∨ letter = 'L') with rfl | rfl <;>
      simp [Shows, hle, Nat.not_lt.2 hle]
  · rcases (by simpa using hm : letter = 'M' ∨ letter = 'L') with rfl | rfl <;>
      simp [Shows, written, h3]
  · rcases (by simpa using hm : letter = 'M' ∨ letter = 'L') with rfl | rfl <;>
      simp [Shows, written, h4]
  · simp [Shows, hd]
  · simp [Shows, hD]
  · have hne : count ≠ 4 := by omega
    simp [Shows, written, hE, hne]
  · simp [Shows, written, hE, h4]

theorem suffix_of_readNumber? (make : Nat → Fact) (h : (readNumber? least most s).map
    (fun (n, rest) => (make n, rest)) = some (fact, rest)) : rest <:+ s := by
  obtain ⟨⟨n, tail⟩, hread, heq⟩ := Option.map_eq_some_iff.1 h
  cases heq
  obtain ⟨word, rfl, -, -⟩ := readNumber?_eq_some_iff.1 hread
  exact List.suffix_append word _

theorem suffix_of_readName? (make : α → Fact) (hnames : Distinct whole names)
    (h : (readName? whole names s).map (fun (v, rest) => (make v, rest)) = some (fact, rest)) :
    rest <:+ s := by
  obtain ⟨⟨v, tail⟩, hread, heq⟩ := Option.map_eq_some_iff.1 h
  cases heq
  obtain ⟨name, -, rfl⟩ := (readName?_eq_some_iff hnames).1 hread
  exact List.suffix_append _ _

/-- Fields leave an end of the text. -/
theorem suffix_of_read? (h : f.read? s = some (fact, rest)) : rest <:+ s := by
  cases f with
  | year least => exact suffix_of_readNumber? .year h
  | shortYear => exact suffix_of_readNumber? (fun n => .year (2000 + n)) h
  | month least => exact suffix_of_readNumber? .month h
  | monthName whole => exact suffix_of_readName? .month (distinct_months whole) h
  | day least => exact suffix_of_readNumber? .day h
  | dayOfYear least => exact suffix_of_readNumber? .dayOfYear h
  | weekday whole => exact suffix_of_readName? .weekday (distinct_weekdays whole) h

end Field

theorem writes_literal_iff {t : List Char} : Writes d (.literal t) word rest ↔ word = t := by
  constructor
  · intro h
    cases h
    rfl
  · rintro rfl
    exact .literal

theorem writes_quote_iff : Writes d .quote word rest ↔ word = ['\''] := by
  constructor
  · intro h
    cases h
    rfl
  · rintro rfl
    exact .quote

end DatePattern

/-! ## Whole texts -/

namespace DateFormat

open DatePattern

variable {s : List Char} {d : Date} {f : Field} {items : List Item} {pieces : List Piece}
  {pattern : List Char} {format : DateFormat}

/-- The text is made of the pieces, and what it states is true of the date. -/
def Fits (d : Date) (pieces : List Piece) (s : List Char) : Prop :=
  ∃ facts, factsOf? pieces s = some facts ∧ ∀ fact ∈ facts, fact.Holds d

theorem fits_nil_iff : Fits d [] s ↔ s = [] := by
  simp [Fits, factsOf?]

theorem fits_text_iff {t : List Char} :
    Fits d (.text t :: pieces) s ↔ ∃ rest, s = t ++ rest ∧ Fits d pieces rest := by
  constructor
  · rintro ⟨facts, hfacts, hold⟩
    obtain ⟨rest, hrest, hfacts⟩ := Option.bind_eq_some_iff.1 hfacts
    exact ⟨rest, strip?_eq_some_iff.1 hrest, facts, hfacts, hold⟩
  · rintro ⟨rest, hs, facts, hfacts, hold⟩
    exact ⟨facts, Option.bind_eq_some_iff.2 ⟨rest, strip?_eq_some_iff.2 hs, hfacts⟩, hold⟩

theorem fits_field_iff : Fits d (.field f :: pieces) s ↔
    ∃ word rest, s = word ++ rest ∧ f.Shows d word rest ∧ Fits d pieces rest := by
  constructor
  · rintro ⟨all, hall, hold⟩
    obtain ⟨⟨fact, rest⟩, hread, h⟩ := Option.bind_eq_some_iff.1 hall
    obtain ⟨facts, hfacts, heq⟩ := Option.bind_eq_some_iff.1 h
    cases heq
    obtain ⟨hfact, hrest⟩ := List.forall_mem_cons.1 hold
    obtain ⟨word, rfl⟩ := Field.suffix_of_read? hread
    exact ⟨word, rest, rfl, (Field.exists_read?_holds_iff f).1 ⟨fact, hread, hfact⟩, facts, hfacts,
      hrest⟩
  · rintro ⟨word, rest, rfl, hword, facts, hfacts, hrest⟩
    obtain ⟨fact, hread, hfact⟩ := (Field.exists_read?_holds_iff f).2 hword
    refine ⟨fact :: facts, ?_, List.forall_mem_cons.2 ⟨hfact, hrest⟩⟩
    exact Option.bind_eq_some_iff.2 ⟨_, hread, Option.bind_eq_some_iff.2 ⟨facts, hfacts, rfl⟩⟩

/-- What fits the pieces is written by the items that they come from. -/
theorem fits_iff_renders
    (h : List.Forall₂ (fun item piece => Piece.ofItem item = .ok piece) items pieces) :
    Fits d pieces s ↔ Renders d items s := by
  induction h generalizing s with
  | nil => rw [fits_nil_iff, renders_nil_iff]
  | @cons item piece items pieces hitem _ ih =>
    rw [renders_cons_iff]
    cases item with
    | literal t =>
      cases hitem
      rw [fits_text_iff]
      simp [writes_literal_iff, ih]
    | quote =>
      cases hitem
      rw [fits_text_iff]
      simp [writes_quote_iff, ih]
    | field letter count =>
      rw [Piece.ofItem] at hitem
      split at hitem
      · rename_i f hf
        cases hitem
        rw [fits_field_iff]
        simp only [Field.writes_iff_shows hf, ih]
      · cases hitem

theorem read?_iff_renders (h : ofPattern pattern = .ok format)
    (hitems : Item.all pattern = .ok items) : format.read? s = some d ↔ Renders d items s := by
  obtain ⟨found, hfound, hpieces, hfix⟩ := exists_items_of_ofPattern h
  cases hfound.symm.trans hitems
  rw [read?_eq_some_iff hfix]
  exact fits_iff_renders hpieces

/-- A format reads a date from a text exactly if the text is a way to write that date by the
pattern. -/
theorem read?_eq_some_iff_renders (h : ofPattern pattern = .ok format) :
    ∃ items, Item.all pattern = .ok items ∧
      ∀ text d, format.read? text = some d ↔ Renders d items text := by
  obtain ⟨items, hitems, -⟩ := exists_items_of_ofPattern h
  exact ⟨items, hitems, fun text d => read?_iff_renders h hitems⟩

/-- A day and its year, with the weekday said as well. -/
theorem read?_weekday_dayOfYear_iff :
    ofPattern "EEE D/y".toList =
        .ok ⟨"EEE D/y".toList, [.field (.weekday false), .text [' '], .field (.dayOfYear 1),
          .text ['/'], .field (.year 1)]⟩ ∧
      ∃ items, Item.all "EEE D/y".toList = .ok items ∧ ∀ text d,
        read? ⟨"EEE D/y".toList, [.field (.weekday false), .text [' '], .field (.dayOfYear 1),
          .text ['/'], .field (.year 1)]⟩ text = some d ↔ Renders d items text := by
  have h : ofPattern "EEE D/y".toList =
      .ok ⟨"EEE D/y".toList, [.field (.weekday false), .text [' '], .field (.dayOfYear 1),
        .text ['/'], .field (.year 1)]⟩ := by cbv
  exact ⟨h, read?_eq_some_iff_renders h⟩

end DateFormat

end TodoAudit
