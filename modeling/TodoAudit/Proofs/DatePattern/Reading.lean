import TodoAudit.DatePattern.Format
import TodoAudit.Proofs.Calendar.DayOfYear
import TodoAudit.Proofs.Success

/-!
# What reading a date relies on

The facts that a text states are of the kinds that the fields ask for, so a format whose fields fix
a date always has a candidate for it. If there is a date for which all the facts are true, the
candidate is that date (`candidate?_eq_some`), by the month or by the day of the year.
-/

namespace TodoAudit

open Text DatePattern

variable {pattern s rest : List Char} {format : DateFormat} {f : Field} {fact : Fact}
  {facts : List Fact} {pieces : List Piece} {d : Date}

/-! ## Formats -/

/-- A format is made of what the items of its pattern ask for, and its fields fix a date. -/
theorem DateFormat.exists_items_of_ofPattern (h : ofPattern pattern = .ok format) :
    ∃ items, Item.all pattern = .ok items ∧
      List.Forall₂ (fun item piece => Piece.ofItem item = .ok piece) items format.pieces ∧
      FixDate (fieldsOf format.pieces) := by
  rw [ofPattern] at h
  split at h
  · cases h
  · obtain ⟨-, -, h⟩ := Success.bind_eq_ok_iff.1 h
    obtain ⟨items, hitems, h⟩ := Success.bind_eq_ok_iff.1 h
    obtain ⟨pieces, hpieces, h⟩ := Success.bind_eq_ok_iff.1 h
    refine ⟨items, Success.mapError_eq_ok_iff.1 hitems, ?_⟩
    split at h
    · rename_i hfix
      cases h
      exact ⟨Success.mapM_eq_ok_iff.1 hpieces, hfix⟩
    · cases h

theorem DateFormat.pattern_of_ofPattern (h : ofPattern pattern = .ok format) :
    format.pattern = pattern := by
  rw [ofPattern] at h
  split at h
  · cases h
  · obtain ⟨-, -, h⟩ := Success.bind_eq_ok_iff.1 h
    obtain ⟨items, -, h⟩ := Success.bind_eq_ok_iff.1 h
    obtain ⟨pieces, -, h⟩ := Success.bind_eq_ok_iff.1 h
    split at h <;> cases h
    rfl

/-! ## Kinds of facts -/

namespace DatePattern

theorem Fact.eq_year (fact : Fact) (n : Nat) (h : fact.year? = some n) : fact = .year n := by
  cases fact <;> cases h
  rfl

theorem Fact.eq_month (fact : Fact) (n : Nat) (h : fact.month? = some n) : fact = .month n := by
  cases fact <;> cases h
  rfl

theorem Fact.eq_day (fact : Fact) (n : Nat) (h : fact.day? = some n) : fact = .day n := by
  cases fact <;> cases h
  rfl

theorem Fact.eq_dayOfYear (fact : Fact) (n : Nat) (h : fact.dayOfYear? = some n) :
    fact = .dayOfYear n := by
  cases fact <;> cases h
  rfl

theorem Field.kind_of_read? (h : f.read? s = some (fact, rest)) :
    fact.year?.isSome = f.isYear ∧ fact.month?.isSome = f.isMonth ∧
      fact.day?.isSome = f.isDay ∧ fact.dayOfYear?.isSome = f.isDayOfYear := by
  cases f
  all_goals
    obtain ⟨x, -, hx⟩ := Option.map_eq_some_iff.1 h
    cases hx
    exact ⟨rfl, rfl, rfl, rfl⟩

end DatePattern

namespace DateFormat

/-- The facts are of the kinds that the fields ask for. -/
theorem any_eq_of_factsOf? {p : Field → Bool} {q : Fact → Bool}
    (hpq : ∀ f s fact rest, Field.read? s f = some (fact, rest) → q fact = p f)
    (h : factsOf? pieces s = some facts) : facts.any q = (fieldsOf pieces).any p := by
  induction pieces generalizing s facts with
  | nil =>
    rw [factsOf?] at h
    split at h <;> cases h
    rfl
  | cons piece pieces ih =>
    cases piece with
    | text t =>
      obtain ⟨rest, -, h⟩ := Option.bind_eq_some_iff.1 h
      exact ih h
    | field f =>
      obtain ⟨⟨fact, rest⟩, hfact, h⟩ := Option.bind_eq_some_iff.1 h
      obtain ⟨facts', hfacts, h⟩ := Option.bind_eq_some_iff.1 h
      cases h
      rw [List.any_cons, ih hfacts, hpq f s fact rest hfact]
      rfl

/-! ## The candidate -/

variable {kind : Fact → Option Nat} {n : Nat}

theorem findSome?_kind_of_any (h : facts.any fun fact => (kind fact).isSome) :
    ∃ n, facts.findSome? kind = some n := by
  obtain ⟨fact, hmem, hfact⟩ := List.any_eq_true.1 h
  rw [← Option.isSome_iff_exists, List.findSome?_isSome_iff]
  exact ⟨fact, hmem, hfact⟩

theorem mem_of_findSome?_kind {make : Nat → Fact}
    (hmake : ∀ fact n, kind fact = some n → fact = make n) (h : facts.findSome? kind = some n) :
    make n ∈ facts := by
  obtain ⟨fact, hmem, hfact⟩ := List.exists_of_findSome?_eq_some h
  rwa [← hmake fact n hfact]

/-- A date for which all the facts are true is the one that they fix. -/
theorem candidate?_eq_some (hfix : FixDate (fieldsOf pieces)) (h : factsOf? pieces s = some facts)
    (hall : ∀ fact ∈ facts, fact.Holds d) : candidate? facts = some d := by
  have hkind : ∀ (kind : Fact → Option Nat) (p : Field → Bool),
      (∀ f s fact rest, Field.read? s f = some (fact, rest) → (kind fact).isSome = p f) →
      (fieldsOf pieces).any p → ∃ n, facts.findSome? kind = some n := by
    intro kind p hp hany
    exact findSome?_kind_of_any ((any_eq_of_factsOf? hp h).trans hany)
  obtain ⟨hyear, hday⟩ := hfix
  obtain ⟨y, hy⟩ := hkind Fact.year? _ (fun f s fact rest hf => (Field.kind_of_read? hf).1) hyear
  have hyd : d.year = y := hall _ (mem_of_findSome?_kind Fact.eq_year hy)
  rw [candidate?, hy, Option.bind_eq_bind, Option.bind_some]
  split
  · rename_i m n hm hn
    have hmd : d.month = m := hall _ (mem_of_findSome?_kind Fact.eq_month hm)
    have hnd : d.day = n := hall _ (mem_of_findSome?_kind Fact.eq_day hn)
    exact Date.ofYearMonthDay?_eq_some_iff.2 ⟨hyd, hmd, hnd⟩
  · rename_i hnone
    rcases hday with ⟨hmonth, hday⟩ | hday
    · obtain ⟨m, hm⟩ := hkind Fact.month? _
        (fun f s fact rest hf => (Field.kind_of_read? hf).2.1) hmonth
      obtain ⟨n, hn⟩ := hkind Fact.day? _
        (fun f s fact rest hf => (Field.kind_of_read? hf).2.2.1) hday
      exact absurd hn (hnone m n hm)
    · obtain ⟨n, hn⟩ := hkind Fact.dayOfYear? _
        (fun f s fact rest hf => (Field.kind_of_read? hf).2.2.2) hday
      have hnd : d.dayOfYear = n := hall _ (mem_of_findSome?_kind Fact.eq_dayOfYear hn)
      rw [hn, Option.bind_some, ← hyd, ← hnd]
      exact Date.ofDayOfYear?_dayOfYear d

/-- A date is read exactly if the text states facts and all of them are true for the date. -/
theorem read?_eq_some_iff (hfix : FixDate (fieldsOf format.pieces)) : format.read? s = some d ↔
    ∃ facts, factsOf? format.pieces s = some facts ∧ ∀ fact ∈ facts, fact.Holds d := by
  rw [read?, Option.bind_eq_bind, Option.bind_eq_some_iff]
  refine exists_congr fun facts => and_congr_right fun hfacts => ?_
  rw [dateOf?, Option.filter_eq_some_iff, List.all_eq_true]
  constructor
  · rintro ⟨-, hall⟩ fact hfact
    exact of_decide_eq_true (hall fact hfact)
  · intro hall
    exact ⟨candidate?_eq_some hfix hfacts hall, fun fact hfact => decide_eq_true (hall fact hfact)⟩

end DateFormat

end TodoAudit
