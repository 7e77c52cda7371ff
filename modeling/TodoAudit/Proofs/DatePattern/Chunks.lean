import Mathlib
import TodoAudit.Proofs.DatePattern.Runs

/-!
# The chunks of a pattern

A pattern is cut into items without loss, and in one way only (`all_isCut`). `IsCut` says what a cut
is without saying how it is found: the chunks make up the pattern, each of them spells its item, and
no chunk is continued by the next one. Where the first chunk ends is settled by what stands behind
it (`beginsWith_append_iff`), so a cut consists of the item with which the pattern begins and a cut
of the rest (`isCut_cons_iff`). From this it follows by induction over the chunks that every cut is
found (`all_of_isCut`) and that there is no other one (`IsCut.unique`).
-/

namespace TodoAudit.DatePattern.Item

open Text

variable {item : Item} {items : List Item} {chunk s rest : List Char} {c d : Char}
  {cut cut' : List (List Char × Item)}

/-! ## Where a chunk ends -/

/-- The character `d` behind `c` would belong to the same run of one letter, or to the same plain
text. -/
def Continues (c d : Char) : Prop :=
  c.isAlpha = true ∧ d = c ∨ isPlain c = true ∧ isPlain d = true

/-- What follows the first chunk does not go on with it. -/
def IsEnded (chunk rest : List Char) : Prop :=
  ∀ c, chunk.getLast? = some c → ∀ d, rest.head? = some d → ¬ Continues c d

theorem not_isPlain_of_isAlpha (h : c.isAlpha = true) : isPlain c = false := by
  simp [isPlain, h]

theorem not_continues_quote : ¬ Continues '\'' d := by
  simp [Continues, isPlain]

theorem isEnded_of_quote (h : chunk.getLast? = some '\'') : IsEnded chunk rest := by
  intro c hc d _
  cases h.symm.trans hc
  exact not_continues_quote

theorem isEnded_replicate_iff {letter : Char} {count : Nat} (h : letter.isAlpha = true)
    (hpos : 0 < count) :
    IsEnded (List.replicate count letter) rest ↔ rest.head? ≠ some letter := by
  have hlast : (List.replicate count letter).getLast? = some letter := by
    rw [List.getLast?_replicate, if_neg hpos.ne']
  constructor
  · intro hended hhead
    exact hended letter hlast letter hhead (.inl ⟨h, rfl⟩)
  · intro hhead c hc d hd
    cases hlast.symm.trans hc
    rintro (⟨-, rfl⟩ | ⟨hplain, -⟩)
    · exact hhead hd
    · simp [not_isPlain_of_isAlpha h] at hplain

theorem isEnded_plain_iff (hne : chunk ≠ []) (h : ∀ c ∈ chunk, isPlain c = true) :
    IsEnded chunk rest ↔ ∀ c, rest.head? = some c → isPlain c = false := by
  have hlast := List.getLast?_eq_some_getLast hne
  have hplain := h _ (List.getLast_mem hne)
  constructor
  · intro hended d hd
    by_contra hnot
    exact hended _ hlast d hd (.inr ⟨hplain, by simpa using hnot⟩)
  · intro hstop c hc d hd
    cases hlast.symm.trans hc
    rintro (⟨hletter, -⟩ | ⟨-, hd'⟩)
    · simp [not_isPlain_of_isAlpha hletter] at hplain
    · simp [hstop d hd] at hd'

/-- A pattern begins with the item that is spelled by its first chunk, if this does not go on. -/
theorem beginsWith_append_iff :
    BeginsWith (chunk ++ rest) item rest ↔ Spells chunk item ∧ IsEnded chunk rest := by
  constructor
  · intro h
    generalize hs : chunk ++ rest = s at h
    cases h with
    | field hletter hpos hstop =>
      obtain rfl := List.append_cancel_right hs
      exact ⟨.field hletter hpos, (isEnded_replicate_iff hletter hpos).2 hstop⟩
    | plain hne hplain hstop =>
      obtain rfl := List.append_cancel_right hs
      exact ⟨.plain hne hplain, (isEnded_plain_iff hne hplain).2 hstop⟩
    | quoted hne hfree =>
      rw [List.append_cons] at hs
      obtain rfl := List.append_cancel_right hs
      exact ⟨.quoted hne hfree, isEnded_of_quote (by rw [List.getLast?_concat])⟩
    | quote =>
      obtain rfl : chunk = ['\'', '\''] := List.append_cancel_right hs
      exact ⟨.quote, isEnded_of_quote rfl⟩
  · rintro ⟨h, hended⟩
    cases h with
    | field hletter hpos =>
      exact .field hletter hpos ((isEnded_replicate_iff hletter hpos).1 hended)
    | plain hne hplain => exact .plain hne hplain ((isEnded_plain_iff hne hplain).1 hended)
    | quoted hne hfree =>
      rw [← List.append_cons]
      exact .quoted hne hfree
    | quote => exact .quote

/-! ## Cuts -/

/-- The pattern is cut into chunks, each with the item that it spells. A run of one letter and plain
text are never cut in two. -/
structure IsCut (s : List Char) (cut : List (List Char × Item)) : Prop where
  flatMap_eq : cut.flatMap Prod.fst = s
  spells : ∀ p ∈ cut, Spells p.1 p.2
  ended : cut.IsChain fun p q => IsEnded p.1 q.1

theorem isCut_nil_iff : IsCut s [] ↔ s = [] := by
  constructor
  · intro h
    exact h.flatMap_eq.symm
  · rintro rfl
    exact ⟨rfl, by simp, .nil⟩

/-- A chunk is not continued by the other ones if it is not continued by the next one. -/
theorem isEnded_flatMap_iff (h : ∀ p ∈ cut, Spells p.1 p.2) :
    IsEnded chunk (cut.flatMap Prod.fst) ↔ ∀ p, cut.head? = some p → IsEnded chunk p.1 := by
  cases cut with
  | nil => simp [IsEnded]
  | cons p cut =>
    obtain ⟨c, tail, hp⟩ := List.exists_cons_of_ne_nil (h p List.mem_cons_self).ne_nil
    simp [IsEnded, hp]

/-- A cut consists of the item with which the pattern begins and a cut of the rest. -/
theorem isCut_cons_iff : IsCut s ((chunk, item) :: cut) ↔
    ∃ rest, s = chunk ++ rest ∧ BeginsWith s item rest ∧ IsCut rest cut := by
  constructor
  · rintro ⟨rfl, hspells, hended⟩
    rw [List.forall_mem_cons] at hspells
    rw [List.isChain_cons] at hended
    refine ⟨cut.flatMap Prod.fst, List.flatMap_cons, ?_, ⟨rfl, hspells.2, hended.2⟩⟩
    rw [List.flatMap_cons, beginsWith_append_iff, isEnded_flatMap_iff hspells.2]
    exact ⟨hspells.1, hended.1⟩
  · rintro ⟨rest, rfl, hbegin, hcut⟩
    obtain ⟨hchunk, hended⟩ := beginsWith_append_iff.1 hbegin
    rw [← hcut.flatMap_eq, isEnded_flatMap_iff hcut.spells] at hended
    refine ⟨by rw [List.flatMap_cons, hcut.flatMap_eq], ?_, ?_⟩
    · exact List.forall_mem_cons.2 ⟨hchunk, hcut.spells⟩
    · exact List.isChain_cons.2 ⟨hended, hcut.ended⟩

theorem exists_isCut_of_all (h : all s = .ok items) :
    ∃ cut, IsCut s cut ∧ cut.map Prod.snd = items := by
  refine induction_of_all (motive := fun s items => ∃ cut, IsCut s cut ∧ cut.map Prod.snd = items)
    ?_ ?_ h
  · exact ⟨[], isCut_nil_iff.2 rfl, rfl⟩
  · rintro s item rest items hbegin ⟨cut, hcut, rfl⟩
    obtain ⟨chunk, hs, -⟩ := hbegin.exists_chunk
    exact ⟨(chunk, item) :: cut, isCut_cons_iff.2 ⟨rest, hs, hbegin, hcut⟩, rfl⟩

theorem all_of_isCut (h : IsCut s cut) : all s = .ok (cut.map Prod.snd) := by
  induction cut generalizing s with
  | nil =>
    rw [isCut_nil_iff.1 h, all_nil]
    rfl
  | cons p cut ih =>
    obtain ⟨rest, -, hbegin, hrest⟩ := isCut_cons_iff.1 h
    rw [all_of_beginsWith hbegin, ih hrest]
    rfl

/-- A pattern is cut in one way only. -/
theorem IsCut.unique (h : IsCut s cut) (h' : IsCut s cut') : cut = cut' := by
  induction cut generalizing s cut' with
  | nil =>
    have hitems := (all_of_isCut h).symm.trans (all_of_isCut h')
    simpa using hitems
  | cons p cut ih =>
    cases cut' with
    | nil =>
      have hitems := (all_of_isCut h).symm.trans (all_of_isCut h')
      simp at hitems
    | cons p' cut' =>
      obtain ⟨rest, hs, hbegin, hrest⟩ := isCut_cons_iff.1 h
      obtain ⟨rest', hs', hbegin', hrest'⟩ := isCut_cons_iff.1 h'
      -- what the pattern begins with is found by eating it
      have heaten := (any_of_beginsWith hbegin).symm.trans (any_of_beginsWith hbegin')
      obtain ⟨hitem, rfl⟩ : p.2 = p'.2 ∧ rest = rest' := by simpa using heaten
      have hchunk : p.1 = p'.1 := List.append_cancel_right (hs.symm.trans hs')
      rw [Prod.ext hchunk hitem, ih hrest hrest']

/-- A pattern is cut into items exactly if it has an even number of quotes. Else the cutting stops
at the last quote and refuses what begins with it. The items are those that are spelled by the
chunks of a cut, and there is only one cut: no character of the pattern is lost, and none stands in
two chunks or in another place. -/
theorem all_isCut (s : List Char) :
    ((∃ items, all s = .ok items) ↔ Even (s.count '\'')) ∧
      (Odd (s.count '\'') → ∃ front inside, s = front ++ '\'' :: inside ∧ '\'' ∉ inside ∧
        all s = refuse .nothing ('\'' :: inside)) ∧
      (∀ items, all s = .ok items ↔ ∃ cut, IsCut s cut ∧ cut.map Prod.snd = items) ∧
      ∀ cut cut', IsCut s cut → IsCut s cut' → cut = cut' := by
  refine ⟨⟨?_, exists_all_eq_ok_of_even⟩, ?_, fun items => ⟨exists_isCut_of_all, ?_⟩,
    fun cut cut' h h' => h.unique h'⟩
  · rintro ⟨items, hitems⟩
    rcases all_spec s with ⟨heven, -⟩ | ⟨-, front, inside, -, -, hrefuse⟩
    · exact heven
    · cases hitems.symm.trans hrefuse
  · intro hodd
    rcases all_spec s with ⟨heven, -⟩ | ⟨-, hrefuse⟩
    · exact absurd heven (Nat.not_even_iff_odd.2 hodd)
    · exact hrefuse
  · rintro ⟨cut, hcut, rfl⟩
    exact all_of_isCut hcut

/-- Plain text behind quoted text is a chunk of its own, and of three quotes in a row the last one
is left open. -/
theorem all_isCut_quotes :
    (∃ cut, IsCut "dd'.'.''".toList cut ∧
        cut.map Prod.snd = [.field 'd' 2, .literal ['.'], .literal ['.'], .quote] ∧
        ∀ cut', IsCut "dd'.'.''".toList cut' → cut = cut') ∧
      Odd ("d'''".toList.count '\'') ∧
      ∃ front inside, "d'''".toList = front ++ '\'' :: inside ∧ '\'' ∉ inside ∧
        all "d'''".toList = refuse .nothing ('\'' :: inside) := by
  have hitems : all "dd'.'.''".toList =
      .ok [.field 'd' 2, .literal ['.'], .literal ['.'], .quote] := by
    cbv
  have hodd : Odd ("d'''".toList.count '\'') := by decide
  obtain ⟨-, -, hcuts, hunique⟩ := all_isCut "dd'.'.''".toList
  obtain ⟨cut, hcut, hmap⟩ := (hcuts _).1 hitems
  exact ⟨⟨cut, hcut, hmap, fun cut' => hunique cut cut' hcut⟩, hodd,
    (all_isCut "d'''".toList).2.1 hodd⟩

end TodoAudit.DatePattern.Item
