import Mathlib
import TodoAudit.DatePattern.Item
import TodoAudit.Proofs.Text.Trimming

/-!
# The items of a pattern

`BeginsWith` says what the first item of a pattern is and what stands behind it, and eating an item
finds just this (`any_eq_ok_iff`). So what is true of all items of a pattern can be proved by
induction over them (`induction_of_all`). In this way a pattern is cut into chunks, each of which
spells one item (`exists_chunks_of_all`). A chunk is at least as long as its item is wide.
-/

namespace TodoAudit.DatePattern.Item

open Text

variable {item : Item} {items : List Item} {chunk s t inside rest : List Char} {c : Char}

/-- The chunk of a pattern stands for the item. -/
inductive Spells : (chunk : List Char) → Item → Prop
  | field {letter : Char} {count : Nat} :
      letter.isAlpha = true → 0 < count →
      Spells (List.replicate count letter) (.field letter count)
  | plain {t : List Char} : t ≠ [] → (∀ c ∈ t, isPlain c = true) → Spells t (.literal t)
  | quoted {t : List Char} : t ≠ [] → '\'' ∉ t → Spells ('\'' :: t ++ ['\'']) (.literal t)
  | quote : Spells ['\'', '\''] .quote

/-! ## The first item of a pattern -/

/-- The pattern begins with the item, and `rest` stands behind it. -/
inductive BeginsWith : (s : List Char) → (item : Item) → (rest : List Char) → Prop
  | field {letter : Char} {count : Nat} {rest : List Char} :
      letter.isAlpha = true → 0 < count → rest.head? ≠ some letter →
      BeginsWith (List.replicate count letter ++ rest) (.field letter count) rest
  | plain {t rest : List Char} :
      t ≠ [] → (∀ c ∈ t, isPlain c = true) → (∀ c, rest.head? = some c → isPlain c = false) →
      BeginsWith (t ++ rest) (.literal t) rest
  | quoted {t rest : List Char} :
      t ≠ [] → '\'' ∉ t → BeginsWith ('\'' :: t ++ '\'' :: rest) (.literal t) rest
  | quote {rest : List Char} : BeginsWith ('\'' :: '\'' :: rest) .quote rest

theorem any_of_isAlpha (h : c.isAlpha = true) (s : List Char) :
    any (c :: s) =
      .ok (.field c (s.takeWhile (· == c)).length.succ, s.dropWhile (· == c)) := by
  rw [any, letters, if_pos h]

theorem any_of_isPlain (h : isPlain c = true) (s : List Char) :
    any (c :: s) = .ok (.literal (c :: s.takeWhile isPlain), s.dropWhile isPlain) := by
  have hc : c.isAlpha = false ∧ c ≠ '\'' := by simpa [isPlain] using h
  have hletters : letters (c :: s) = refuse .letter (c :: s) := by
    rw [letters, if_neg (by simp [hc.1])]
  have hquoted : quoted (c :: s) = refuse .quote (c :: s) := by
    unfold quoted
    split
    · rename_i heq
      exact absurd (List.cons.inj heq).1 hc.2
    · rfl
  rw [any, hletters, hquoted, refuse, refuse]
  simp [plain, h]

theorem any_of_closed (h : '\'' ∉ t) (rest : List Char) :
    any ('\'' :: t ++ '\'' :: rest) = .ok (if t = [] then .quote else .literal t, rest) := by
  have hfree : ∀ c ∈ t, decide (c ≠ '\'') = true := by
    intro c hc
    exact decide_eq_true (ne_of_mem_of_not_mem hc h)
  have hstop : ∀ c, ('\'' :: rest).head? = some c → decide (c ≠ '\'') = false := by
    rintro c ⟨⟩
    decide
  rw [List.cons_append, any, letters, if_neg (by decide), refuse, quoted]
  simp only [dropWhile_append_of_stop hfree hstop, takeWhile_append_of_stop hfree hstop,
    List.isEmpty_iff]

theorem any_of_unclosed (h : '\'' ∉ inside) : ∃ refusal, any ('\'' :: inside) = .error refusal := by
  have hall : inside.dropWhile (fun c => decide (c ≠ '\'')) = [] := by
    rw [List.dropWhile_eq_nil_iff]
    intro c hc
    exact decide_eq_true (ne_of_mem_of_not_mem hc h)
  rw [any, letters, if_neg (by decide), refuse, quoted]
  simp only [hall]
  exact ⟨_, rfl⟩

theorem any_of_beginsWith (h : BeginsWith s item rest) : any s = .ok (item, rest) := by
  cases h with
  | @field letter count _ hletter hpos hstop =>
    obtain ⟨n, rfl⟩ := Nat.exists_eq_add_one.2 hpos
    have hrun : ∀ c ∈ List.replicate n letter, (c == letter) = true := by
      intro c hc
      rw [List.eq_of_mem_replicate hc, beq_self_eq_true]
    have hend : ∀ c, rest.head? = some c → (c == letter) = false := by
      rintro c hc
      exact beq_eq_false_iff_ne.2 fun heq => hstop (heq ▸ hc)
    rw [List.replicate_succ, List.cons_append, any_of_isAlpha hletter,
      takeWhile_append_of_stop hrun hend, dropWhile_append_of_stop hrun hend,
      List.length_replicate]
  | @plain t _ hne hplain hstop =>
    obtain ⟨c, t, rfl⟩ := List.exists_cons_of_ne_nil hne
    rw [List.forall_mem_cons] at hplain
    rw [List.cons_append, any_of_isPlain hplain.1, takeWhile_append_of_stop hplain.2 hstop,
      dropWhile_append_of_stop hplain.2 hstop]
  | quoted hne hfree => rw [any_of_closed hfree, if_neg hne]
  | quote => exact any_of_closed List.not_mem_nil rest

theorem takeWhile_beq_eq_replicate (c : Char) (s : List Char) :
    s.takeWhile (· == c) = List.replicate (s.takeWhile (· == c)).length c := by
  rw [List.eq_replicate_iff]
  exact ⟨rfl, fun b hb => by simpa using List.mem_takeWhile_imp hb⟩

/-- Only at the end of a pattern and at a quote that is never closed does no item begin. -/
theorem eq_nil_or_unclosed_or_beginsWith (s : List Char) :
    s = [] ∨ (∃ inside, s = '\'' :: inside ∧ '\'' ∉ inside) ∨
      ∃ item rest, BeginsWith s item rest := by
  rcases s with _ | ⟨c, s⟩
  · exact .inl rfl
  · refine .inr ?_
    by_cases hletter : c.isAlpha = true
    · have hrun : c :: s = List.replicate (s.takeWhile (· == c)).length.succ c ++
          s.dropWhile (· == c) := by
        rw [List.replicate_succ, ← takeWhile_beq_eq_replicate, List.cons_append,
          List.takeWhile_append_dropWhile]
      have hstop : (s.dropWhile (· == c)).head? ≠ some c := by
        intro hhead
        have hne : (c == c) = false := head_dropWhile (p := (· == c)) hhead
        exact beq_eq_false_iff_ne.1 hne rfl
      have h := BeginsWith.field hletter (s.takeWhile (· == c)).length.succ_pos hstop
      rw [← hrun] at h
      exact .inr ⟨_, _, h⟩
    · by_cases hquote : c = '\''
      · subst hquote
        by_cases hclosed : '\'' ∈ s
        · obtain ⟨t, rest, rfl, hfree⟩ := List.eq_append_cons_of_mem hclosed
          rcases eq_or_ne t [] with rfl | hne
          · exact .inr ⟨_, _, .quote⟩
          · exact .inr ⟨_, _, .quoted hne hfree⟩
        · exact .inl ⟨s, rfl, hclosed⟩
      · have hplain : isPlain c = true := by simp [isPlain, hletter, hquote]
        have h := BeginsWith.plain (t := c :: s.takeWhile isPlain) (List.cons_ne_nil _ _)
          (List.forall_mem_cons.2 ⟨hplain, fun d hd => List.mem_takeWhile_imp hd⟩)
          (fun d (hd : (s.dropWhile isPlain).head? = some d) => head_dropWhile hd)
        rw [List.cons_append, List.takeWhile_append_dropWhile] at h
        exact .inr ⟨_, _, h⟩

/-- Eating an item finds the one with which the pattern begins. -/
theorem any_eq_ok_iff : any s = .ok (item, rest) ↔ BeginsWith s item rest := by
  refine ⟨?_, any_of_beginsWith⟩
  intro h
  rcases eq_nil_or_unclosed_or_beginsWith s with rfl | ⟨inside, rfl, hfree⟩ | ⟨item', rest', h'⟩
  · cases h
  · obtain ⟨refusal, hrefusal⟩ := any_of_unclosed hfree
    cases h.symm.trans hrefusal
  · cases h.symm.trans (any_of_beginsWith h')
    exact h'

/-- The item with which a pattern begins is spelled there. -/
theorem BeginsWith.exists_chunk (h : BeginsWith s item rest) :
    ∃ chunk, s = chunk ++ rest ∧ Spells chunk item := by
  cases h with
  | field hletter hpos _ => exact ⟨_, rfl, .field hletter hpos⟩
  | plain hne hplain _ => exact ⟨_, rfl, .plain hne hplain⟩
  | quoted hne hfree => exact ⟨_, by rw [← List.append_cons], .quoted hne hfree⟩
  | quote => exact ⟨['\'', '\''], rfl, .quote⟩

theorem Spells.ne_nil (h : Spells chunk item) : chunk ≠ [] := by
  cases h with
  | field _ hpos => simpa using hpos.ne'
  | plain hne _ => exact hne
  | quoted _ _ => exact List.cons_ne_nil _ _
  | quote => exact List.cons_ne_nil _ _

/-! ## All items of a pattern -/

theorem many_of_any (h : any s = .ok (item, rest)) :
    many s = (item :: (many rest).1, (many rest).2) := by
  rw [many]
  split
  · rename_i h'
    cases h.symm.trans h'
    rfl
  · rename_i h'
    cases h.symm.trans h'

theorem many_of_not_any {refusal : Refusal} (h : any s = .error refusal) : many s = ([], s) := by
  rw [many]
  split
  · rename_i h'
    cases h.symm.trans h'
  · rfl

theorem all_nil : all [] = .ok [] := by
  have hany : any [] = refuse .run [] := rfl
  rw [all, many_of_not_any hany]

theorem all_of_unclosed (h : '\'' ∉ inside) :
    all ('\'' :: inside) = refuse .nothing ('\'' :: inside) := by
  obtain ⟨refusal, hrefusal⟩ := any_of_unclosed h
  rw [all, many_of_not_any hrefusal]

theorem all_of_beginsWith (h : BeginsWith s item rest) :
    all s = (all rest).map (item :: ·) := by
  rw [all, all, many_of_any (any_of_beginsWith h)]
  rcases many rest with ⟨items, _ | ⟨c, tail⟩⟩ <;> rfl

theorem BeginsWith.length_lt (h : BeginsWith s item rest) : rest.length < s.length :=
  length_lt_of_any (any_of_beginsWith h)

/-- Cutting a pattern ends where the pattern ends or at a quote that is never closed, and else goes
on behind an item. -/
theorem all_induction {motive : List Char → Except Refusal (List Item) → Prop}
    (nil : motive [] (.ok []))
    (unclosed : ∀ inside, '\'' ∉ inside →
      motive ('\'' :: inside) (refuse .nothing ('\'' :: inside)))
    (item : ∀ s item rest, BeginsWith s item rest → motive rest (all rest) →
      motive s ((all rest).map (item :: ·)))
    (s : List Char) : motive s (all s) := by
  induction hn : s.length using Nat.strong_induction_on generalizing s with
  | _ n ih =>
    subst hn
    rcases eq_nil_or_unclosed_or_beginsWith s with rfl | ⟨inside, rfl, hfree⟩ | ⟨_, rest, h⟩
    · rw [all_nil]
      exact nil
    · rw [all_of_unclosed hfree]
      exact unclosed inside hfree
    · rw [all_of_beginsWith h]
      exact item _ _ _ h (ih _ h.length_lt rest rfl)

/-- Induction over the items of a pattern, from the first to the last. -/
theorem induction_of_all {motive : List Char → List Item → Prop} (nil : motive [] [])
    (cons : ∀ s item rest items, BeginsWith s item rest → motive rest items →
      motive s (item :: items)) (h : all s = .ok items) : motive s items := by
  refine all_induction (motive := fun s cut => ∀ items, cut = .ok items → motive s items)
    ?_ ?_ ?_ s items h
  · rintro items ⟨⟩
    exact nil
  · rintro inside - items ⟨⟩
  · intro s item rest hbegin ih items hitems
    cases hrest : all rest with
    | error refusal =>
      rw [hrest] at hitems
      cases hitems
    | ok later =>
      rw [hrest] at hitems
      cases hitems
      exact cons s item rest later hbegin (ih later hrest)

/-- The items of a pattern are spelled by its chunks. -/
theorem exists_chunks_of_all (h : all s = .ok items) :
    ∃ chunks : List (List Char), chunks.flatten = s ∧ List.Forall₂ Spells chunks items := by
  refine induction_of_all (motive := fun s items => ∃ chunks : List (List Char),
    chunks.flatten = s ∧ List.Forall₂ Spells chunks items) ?_ ?_ h
  · exact ⟨[], rfl, .nil⟩
  · rintro s item rest items hbegin ⟨chunks, rfl, hchunks⟩
    obtain ⟨chunk, rfl, hchunk⟩ := hbegin.exists_chunk
    exact ⟨chunk :: chunks, List.flatten_cons, .cons hchunk hchunks⟩

/-! ## Widths -/

/-- How much room the item has in the pattern, without quotes around it. -/
def width : Item → Nat
  | .field _ count => count
  | .literal t => t.length
  | .quote => 1

theorem Spells.width_le (h : Spells chunk item) : item.width ≤ chunk.length := by
  cases h with
  | field _ _ => rw [width, List.length_replicate]
  | plain _ _ => exact le_rfl
  | quoted _ _ =>
    simp only [width, List.length_append, List.length_cons]
    omega
  | quote => simp [width]

/-- The items of a pattern have room in it. -/
theorem sum_width_le (h : all s = .ok items) : (items.map width).sum ≤ s.length := by
  obtain ⟨chunks, rfl, hchunks⟩ := exists_chunks_of_all h
  clear h
  induction hchunks with
  | nil => simp
  | cons hchunk _ ih =>
    rw [List.map_cons, List.sum_cons, List.flatten_cons, List.length_append]
    exact Nat.add_le_add hchunk.width_le ih

end TodoAudit.DatePattern.Item
