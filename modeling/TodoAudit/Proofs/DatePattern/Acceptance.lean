import Mathlib
import TodoAudit.Proofs.DatePattern.Reading
import TodoAudit.Proofs.DatePattern.Runs

/-!
# Patterns that can be used

`IsUsable` says on the pattern itself when it can be used, and `FirstFault` says which fault is
reported of a pattern that cannot: the first that applies, and of unsupported runs the leftmost.
`ofPattern_eq_ok_and_error_iff` says that this is how a pattern becomes a date format. Letters
between quotes are no fields.
-/

namespace TodoAudit

open Text DatePattern

variable {pattern before after : List Char} {items : List Item} {item : Item} {piece : Piece}
  {pieces : List Piece} {fault : PatternFault} {letter : Char} {count : Nat} {f : Field}

namespace DatePattern

/-! ## Conditions on a pattern -/

/-- The run stands for a field: a year in up to nine letters, a month or a weekday in up to four, a
day of the month in up to two, a day of the year in up to three. -/
def IsSupported (letter : Char) (count : Nat) : Prop :=
  letter ∈ ['y', 'u'] ∧ count ≤ 9 ∨ letter ∈ ['M', 'L', 'E'] ∧ count ≤ 4 ∨
    letter = 'd' ∧ count ≤ 2 ∨ letter = 'D' ∧ count ≤ 3

/-- There is something else than blanks in the pattern. -/
def HasVisible (pattern : List Char) : Prop :=
  ∃ c ∈ pattern, isBlank c = false

/-- Every run outside quotes stands for a field. -/
def IsSupportedThroughout (pattern : List Char) : Prop :=
  ∀ before letter count after, IsLetterRun pattern before letter count after →
    IsSupported letter count

/-- There is a run of one of the letters. -/
def HasRun (letters pattern : List Char) : Prop :=
  ∃ letter ∈ letters, ∃ before count after, IsLetterRun pattern before letter count after

/-- The runs fix a date: a year, and in it a day, by the month or by the year. -/
def NamesDate (pattern : List Char) : Prop :=
  HasRun ['y', 'u'] pattern ∧
    (HasRun ['M', 'L'] pattern ∧ HasRun ['d'] pattern ∨ HasRun ['D'] pattern)

/-- The pattern can be used: it is not blank, every quote is closed, every run of letters outside
quotes stands for a field, and the runs fix a date. -/
structure IsUsable (pattern : List Char) : Prop where
  visible : HasVisible pattern
  closed : Even (pattern.count '\'')
  supported : IsSupportedThroughout pattern
  namesDate : NamesDate pattern

/-- The fault is the first one of the pattern. The text of an unclosed quote begins at the last
quote. -/
inductive FirstFault (pattern : List Char) : PatternFault → Prop
  | blank : (∀ c ∈ pattern, isBlank c = true) → FirstFault pattern .blank
  | unclosedQuote {front inside : List Char} :
      HasVisible pattern → Odd (pattern.count '\'') →
      pattern = front ++ '\'' :: inside → '\'' ∉ inside →
      FirstFault pattern (.unclosedQuote ('\'' :: inside))
  | unsupported {letter : Char} {count : Nat} :
      HasVisible pattern → Even (pattern.count '\'') →
      IsFirstRun (fun l n => ¬ IsSupported l n) pattern letter count →
      FirstFault pattern (.unsupported letter count)
  | notWholeDate :
      HasVisible pattern → Even (pattern.count '\'') → IsSupportedThroughout pattern →
      ¬ NamesDate pattern → FirstFault pattern .notWholeDate

/-! ## Runs and fields -/

theorem isSome_ofRun?_iff (hpos : 0 < count) :
    (Field.ofRun? letter count).isSome ↔ IsSupported letter count := by
  have hite : ∀ (p : Prop) [Decidable p] (f : Field) (other : Option Field),
      (if p then some f else other).isSome ↔ p ∨ other.isSome := by
    intro p _ f other
    split_ifs with hp <;> simp [hp]
  -- once the letter is known, only conditions on the count are left
  by_cases hletter : letter ∈ ['y', 'u', 'M', 'L', 'd', 'D', 'E']
  · simp only [List.mem_cons, List.not_mem_nil, or_false] at hletter
    rcases hletter with rfl | rfl | rfl | rfl | rfl | rfl | rfl <;>
      simp [Field.ofRun?, IsSupported, hite] <;> omega
  · simp_all [Field.ofRun?, IsSupported]

/-- The letter of a run says what kind of field it is. -/
theorem Field.kind_of_ofRun? (h : Field.ofRun? letter count = some f) :
    (f.isYear ↔ letter ∈ ['y', 'u']) ∧ (f.isMonth ↔ letter ∈ ['M', 'L']) ∧
      (f.isDay ↔ letter ∈ ['d']) ∧ (f.isDayOfYear ↔ letter ∈ ['D']) := by
  have hletter : letter ∈ ['y', 'u', 'M', 'L', 'd', 'D', 'E'] := by
    by_contra hnot
    simp_all [Field.ofRun?]
  simp only [List.mem_cons, List.not_mem_nil, or_false] at hletter
  rcases hletter with rfl | rfl | rfl | rfl | rfl | rfl | rfl
  all_goals
    simp only [Field.ofRun?, List.mem_cons, List.not_mem_nil, or_false, Char.reduceEq, or_true,
      or_self, if_true, if_false] at h
    split_ifs at h <;> cases h <;>
      simp [Field.isYear, Field.isMonth, Field.isDay, Field.isDayOfYear]

theorem ofItem_field_eq_ok_iff : Piece.ofItem (.field letter count) = .ok piece ↔
    ∃ f, Field.ofRun? letter count = some f ∧ piece = .field f := by
  rw [Piece.ofItem]
  cases Field.ofRun? letter count <;> simp [eq_comm]

theorem ofItem_eq_field_iff : Piece.ofItem item = .ok (.field f) ↔ ∃ letter count,
    item = .field letter count ∧ Field.ofRun? letter count = some f := by
  cases item with
  | literal t => simp [Piece.ofItem]
  | quote => simp [Piece.ofItem]
  | field letter count => simp [ofItem_field_eq_ok_iff]

theorem ofItem_eq_error_iff : Piece.ofItem item = .error fault ↔ ∃ letter count,
    item = .field letter count ∧ Field.ofRun? letter count = none ∧
      fault = .unsupported letter count := by
  cases item with
  | literal t => simp [Piece.ofItem]
  | quote => simp [Piece.ofItem]
  | field letter count =>
    rw [Piece.ofItem]
    cases h : Field.ofRun? letter count <;> simp [eq_comm, h]

theorem not_isSupported_iff (hitems : Item.all pattern = .ok items)
    (hmem : .field letter count ∈ items) :
    Field.ofRun? letter count = none ↔ ¬ IsSupported letter count := by
  obtain ⟨before, after, hrun⟩ := (field_mem_iff hitems).1 hmem
  rw [← isSome_ofRun?_iff hrun.pos, Option.not_isSome_iff_eq_none]

/-! ## The pieces of a pattern -/

/-- Making the pieces fails at the leftmost run that stands for no field. -/
theorem mapM_ofItem_eq_error_iff (hitems : Item.all pattern = .ok items) :
    items.mapM Piece.ofItem = .error fault ↔ ∃ letter count, fault = .unsupported letter count ∧
      IsFirstRun (fun l n => ¬ IsSupported l n) pattern letter count := by
  rw [Success.mapM_eq_error_iff]
  constructor
  · rintro ⟨front, item, back, rfl, hfront, hitem⟩
    obtain ⟨letter, count, rfl, hnone, rfl⟩ := ofItem_eq_error_iff.1 hitem
    refine ⟨letter, count, rfl, (isFirstRun_iff _ hitems).2 ⟨front, back, rfl, ?_, ?_⟩⟩
    · exact (not_isSupported_iff hitems (by simp)).1 hnone
    · intro l n hmem
      obtain ⟨piece, hpiece⟩ := hfront _ hmem
      obtain ⟨f, hf, -⟩ := ofItem_field_eq_ok_iff.1 hpiece
      rw [← not_isSupported_iff hitems (List.mem_append_left _ hmem), hf]
      exact Option.some_ne_none f
  · rintro ⟨letter, count, rfl, hfirst⟩
    obtain ⟨front, back, rfl, hnot, hfront⟩ := (isFirstRun_iff _ hitems).1 hfirst
    refine ⟨front, _, back, rfl, ?_, ?_⟩
    · intro item hmem
      cases hpiece : Piece.ofItem item with
      | ok piece => exact ⟨piece, rfl⟩
      | error fault =>
        obtain ⟨l, n, rfl, hnone, -⟩ := ofItem_eq_error_iff.1 hpiece
        have hunsupported := (not_isSupported_iff hitems (List.mem_append_left _ hmem)).1 hnone
        exact absurd hunsupported (hfront l n hmem)
    · rw [ofItem_eq_error_iff]
      exact ⟨letter, count, rfl, (not_isSupported_iff hitems (by simp)).2 hnot, rfl⟩

theorem isSupportedThroughout_of_mapM (hitems : Item.all pattern = .ok items)
    (hpieces : items.mapM Piece.ofItem = .ok pieces) : IsSupportedThroughout pattern := by
  intro before letter count after hrun
  have hmem : Item.field letter count ∈ items := (field_mem_iff hitems).2 ⟨before, after, hrun⟩
  obtain ⟨piece, -, hpiece⟩ :=
    Success.exists_mem_of_forall₂ (Success.mapM_eq_ok_iff.1 hpieces) hmem
  obtain ⟨f, hf, -⟩ := ofItem_field_eq_ok_iff.1 hpiece
  rw [← isSome_ofRun?_iff hrun.pos, hf]
  rfl

theorem exists_pieces (hitems : Item.all pattern = .ok items)
    (hsupported : IsSupportedThroughout pattern) :
    ∃ pieces, items.mapM Piece.ofItem = .ok pieces := by
  cases hpieces : items.mapM Piece.ofItem with
  | ok pieces => exact ⟨pieces, rfl⟩
  | error fault =>
    obtain ⟨letter, count, -, before, after, hrun, hnot, -⟩ :=
      (mapM_ofItem_eq_error_iff hitems).1 hpieces
    exact absurd (hsupported _ _ _ _ hrun) hnot

theorem mem_fieldsOf_iff : f ∈ fieldsOf pieces ↔ .field f ∈ pieces := by
  rw [fieldsOf, List.mem_filterMap]
  constructor
  · rintro ⟨piece | t, hmem, h⟩ <;> cases h
    exact hmem
  · intro hmem
    exact ⟨_, hmem, rfl⟩

/-- The fields among the pieces are what the runs of the pattern stand for. -/
theorem mem_fieldsOf_iff_exists_run (hitems : Item.all pattern = .ok items)
    (hpieces : items.mapM Piece.ofItem = .ok pieces) : f ∈ fieldsOf pieces ↔
      ∃ before letter count after, IsLetterRun pattern before letter count after ∧
        Field.ofRun? letter count = some f := by
  have hforall := Success.mapM_eq_ok_iff.1 hpieces
  rw [mem_fieldsOf_iff]
  constructor
  · intro hmem
    obtain ⟨item, hitem, hpiece⟩ := Success.exists_mem_of_forall₂ hforall.flip hmem
    obtain ⟨letter, count, rfl, hf⟩ := ofItem_eq_field_iff.1 hpiece
    obtain ⟨before, after, hrun⟩ := (field_mem_iff hitems).1 hitem
    exact ⟨before, letter, count, after, hrun, hf⟩
  · rintro ⟨before, letter, count, after, hrun, hf⟩
    obtain ⟨piece, hmem, hpiece⟩ :=
      Success.exists_mem_of_forall₂ hforall ((field_mem_iff hitems).2 ⟨before, after, hrun⟩)
    obtain ⟨f', hf', rfl⟩ := ofItem_field_eq_ok_iff.1 hpiece
    cases hf.symm.trans hf'
    exact hmem

/-- Fields of a kind are there exactly if there are runs of its letters. -/
theorem any_fieldsOf_iff {p : Field → Bool} {letters : List Char}
    (hp : ∀ letter count f, Field.ofRun? letter count = some f → (p f ↔ letter ∈ letters))
    (hitems : Item.all pattern = .ok items) (hpieces : items.mapM Piece.ofItem = .ok pieces) :
    (fieldsOf pieces).any p ↔ HasRun letters pattern := by
  rw [List.any_eq_true]
  constructor
  · rintro ⟨f, hmem, hpf⟩
    obtain ⟨before, letter, count, after, hrun, hf⟩ :=
      (mem_fieldsOf_iff_exists_run hitems hpieces).1 hmem
    exact ⟨letter, (hp _ _ _ hf).1 hpf, before, count, after, hrun⟩
  · rintro ⟨letter, hletter, before, count, after, hrun⟩
    have hsupported := isSupportedThroughout_of_mapM hitems hpieces _ _ _ _ hrun
    rw [← isSome_ofRun?_iff hrun.pos] at hsupported
    obtain ⟨f, hf⟩ := Option.isSome_iff_exists.1 hsupported
    exact ⟨f, (mem_fieldsOf_iff_exists_run hitems hpieces).2 ⟨_, _, _, _, hrun, hf⟩,
      (hp _ _ _ hf).2 hletter⟩

theorem fixDate_iff_namesDate (hitems : Item.all pattern = .ok items)
    (hpieces : items.mapM Piece.ofItem = .ok pieces) :
    FixDate (fieldsOf pieces) ↔ NamesDate pattern := by
  rw [FixDate, NamesDate,
    any_fieldsOf_iff (fun _ _ _ h => (Field.kind_of_ofRun? h).1) hitems hpieces,
    any_fieldsOf_iff (fun _ _ _ h => (Field.kind_of_ofRun? h).2.1) hitems hpieces,
    any_fieldsOf_iff (fun _ _ _ h => (Field.kind_of_ofRun? h).2.2.1) hitems hpieces,
    any_fieldsOf_iff (fun _ _ _ h => (Field.kind_of_ofRun? h).2.2.2) hitems hpieces]

theorem HasVisible.trim_ne_nil (h : HasVisible pattern) : trim pattern ≠ [] := by
  obtain ⟨c, hmem, hc⟩ := h
  intro hnil
  exact Bool.false_ne_true (hc.symm.trans (trim_eq_nil_iff.1 hnil c hmem))

end DatePattern

namespace DateFormat

/-! ## How a pattern becomes a format -/

theorem ofPattern_of_blank (h : ∀ c ∈ pattern, isBlank c = true) :
    ofPattern pattern = .error .blank := by
  rw [ofPattern, trim_eq_nil_iff.2 h]
  rfl

theorem ofPattern_of_unclosed {refusal : Refusal} (hvisible : HasVisible pattern)
    (h : Item.all pattern = .error refusal) :
    ofPattern pattern = .error (.unclosedQuote refusal.rest) := by
  rw [ofPattern, if_neg (by simpa using hvisible.trim_ne_nil), h]
  rfl

theorem ofPattern_of_items (hvisible : HasVisible pattern)
    (h : Item.all pattern = .ok items) :
    ofPattern pattern = items.mapM Piece.ofItem >>= fun pieces =>
      if FixDate (fieldsOf pieces) then .ok ⟨pattern, pieces⟩ else .error .notWholeDate := by
  rw [ofPattern, if_neg (by simpa using hvisible.trim_ne_nil), h]
  refine congrArg (items.mapM Piece.ofItem >>= ·) (funext fun pieces => ?_)
  split <;> rfl

theorem exists_ok_of_isUsable (h : IsUsable pattern) :
    ∃ format, ofPattern pattern = .ok format := by
  obtain ⟨items, hitems⟩ := Item.exists_all_eq_ok_of_even h.closed
  obtain ⟨pieces, hpieces⟩ := exists_pieces hitems h.supported
  have hfix := (fixDate_iff_namesDate hitems hpieces).2 h.namesDate
  refine ⟨⟨pattern, pieces⟩, ?_⟩
  rw [ofPattern_of_items h.visible hitems]
  exact Success.bind_eq_ok_iff.2 ⟨pieces, hpieces, if_pos hfix⟩

/-- There is only one text behind the last quote. -/
theorem eq_of_last_quote {front front' inside inside' : List Char}
    (h : front ++ '\'' :: inside = front' ++ '\'' :: inside') (hfree : '\'' ∉ inside)
    (hfree' : '\'' ∉ inside') : inside = inside' := by
  have hlast : ∀ u v w : List Char, '\'' :: v = u ++ '\'' :: w → '\'' ∉ v → v = w := by
    rintro (_ | ⟨c, u⟩) v w hsplit hv
    · exact (List.cons.inj hsplit).2
    · rw [(List.cons.inj hsplit).2] at hv
      simp at hv
  rcases List.append_eq_append_iff.1 h with ⟨u, -, hu⟩ | ⟨u, -, hu⟩
  · exact hlast u _ _ hu hfree
  · exact (hlast u _ _ hu hfree').symm

theorem eq_error_of_firstFault (h : FirstFault pattern fault) :
    ofPattern pattern = .error fault := by
  cases h with
  | blank hblank => exact ofPattern_of_blank hblank
  | @unclosedQuote front inside hvisible hodd hsplit hfree =>
    rcases Item.all_spec pattern with ⟨heven, -⟩ | ⟨-, front', inside', hsplit', hfree', hrefuse⟩
    · exact absurd heven (Nat.not_even_iff_odd.2 hodd)
    · -- the cutting stops at the last quote, as the fault says
      rw [eq_of_last_quote (hsplit.symm.trans hsplit') hfree hfree']
      exact ofPattern_of_unclosed hvisible hrefuse
  | unsupported hvisible heven hfirst =>
    obtain ⟨items, hitems⟩ := Item.exists_all_eq_ok_of_even heven
    have hpieces := (mapM_ofItem_eq_error_iff hitems).2 ⟨_, _, rfl, hfirst⟩
    rw [ofPattern_of_items hvisible hitems]
    exact Success.bind_eq_error_iff.2 (.inl hpieces)
  | notWholeDate hvisible heven hsupported hnot =>
    obtain ⟨items, hitems⟩ := Item.exists_all_eq_ok_of_even heven
    obtain ⟨pieces, hpieces⟩ := exists_pieces hitems hsupported
    have hnotFix := mt (fixDate_iff_namesDate hitems hpieces).1 hnot
    rw [ofPattern_of_items hvisible hitems]
    exact Success.bind_eq_error_iff.2 (.inr ⟨pieces, hpieces, if_neg hnotFix⟩)

/-- A pattern that cannot be used has a first fault. -/
theorem isUsable_or_exists_firstFault (pattern : List Char) :
    IsUsable pattern ∨ ∃ fault, FirstFault pattern fault := by
  by_cases hvisible : HasVisible pattern
  · rcases Item.all_spec pattern with
      ⟨heven, items, hitems⟩ | ⟨hodd, front, inside, hsplit, hfree, -⟩
    · cases hpieces : items.mapM Piece.ofItem with
      | ok pieces =>
        have hsupported := isSupportedThroughout_of_mapM hitems hpieces
        by_cases hnames : NamesDate pattern
        · exact .inl ⟨hvisible, heven, hsupported, hnames⟩
        · exact .inr ⟨_, .notWholeDate hvisible heven hsupported hnames⟩
      | error fault =>
        obtain ⟨letter, count, rfl, hfirst⟩ := (mapM_ofItem_eq_error_iff hitems).1 hpieces
        exact .inr ⟨_, .unsupported hvisible heven hfirst⟩
    · exact .inr ⟨_, .unclosedQuote hvisible hodd hsplit hfree⟩
  · refine .inr ⟨_, .blank ?_⟩
    simpa [HasVisible] using hvisible

theorem exists_ok_iff_isUsable : (∃ format, ofPattern pattern = .ok format) ↔ IsUsable pattern := by
  refine ⟨?_, exists_ok_of_isUsable⟩
  rintro ⟨format, hformat⟩
  rcases isUsable_or_exists_firstFault pattern with husable | ⟨fault, hfault⟩
  · exact husable
  · cases hformat.symm.trans (eq_error_of_firstFault hfault)

theorem eq_error_iff_firstFault : ofPattern pattern = .error fault ↔ FirstFault pattern fault := by
  refine ⟨?_, eq_error_of_firstFault⟩
  intro herror
  rcases isUsable_or_exists_firstFault pattern with husable | ⟨fault', hfault⟩
  · obtain ⟨format, hformat⟩ := exists_ok_of_isUsable husable
    cases hformat.symm.trans herror
  · cases herror.symm.trans (eq_error_of_firstFault hfault)
    exact hfault

/-- The fields of a format are what the runs of its pattern stand for. -/
theorem mem_fieldsOf_ofPattern_iff {format : DateFormat} (h : ofPattern pattern = .ok format) :
    f ∈ fieldsOf format.pieces ↔ ∃ before letter count after,
      IsLetterRun pattern before letter count after ∧ Field.ofRun? letter count = some f := by
  obtain ⟨items, hitems, hpieces, -⟩ := exists_items_of_ofPattern h
  exact mem_fieldsOf_iff_exists_run hitems (Success.mapM_eq_ok_iff.2 hpieces)

/-- A pattern becomes a date format exactly if it can be used, and otherwise its first fault is
reported. The fields of the format are what the runs outside quotes stand for. -/
theorem ofPattern_eq_ok_and_error_iff (pattern : List Char) :
    ((∃ format, ofPattern pattern = .ok format) ↔ IsUsable pattern) ∧
      (∀ fault, ofPattern pattern = .error fault ↔ FirstFault pattern fault) ∧
      ∀ f, (∃ format, ofPattern pattern = .ok format ∧ f ∈ fieldsOf format.pieces) ↔
        IsUsable pattern ∧ ∃ before letter count after,
          IsLetterRun pattern before letter count after ∧ Field.ofRun? letter count = some f := by
  refine ⟨exists_ok_iff_isUsable, fun _ => eq_error_iff_firstFault, ?_⟩
  intro f
  rw [← exists_ok_iff_isUsable]
  constructor
  · rintro ⟨format, hformat, hf⟩
    exact ⟨⟨format, hformat⟩, (mem_fieldsOf_ofPattern_iff hformat).1 hf⟩
  · rintro ⟨⟨format, hformat⟩, hf⟩
    exact ⟨format, hformat, (mem_fieldsOf_ofPattern_iff hformat).2 hf⟩

example : ofPattern "yyyy 'at MM' q/dd w".toList = .error (.unsupported 'q' 1) := by cbv

end DateFormat

end TodoAudit
