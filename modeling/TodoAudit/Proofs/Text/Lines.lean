import TodoAudit.Proofs.Text.Occurrence

/-!
# Whole lines

Text in front of another text only moves the positions in it. If it is made of whole lines, columns
stay as they are and lines are counted on from it (`Position.ofOffset_append_right`). No mark of two
characters begins in whole lines and ends behind them, unless it begins with a line break
(`pair_isInfix_append`).
-/

namespace TodoAudit.Text

variable {mark s t a b before after rest : List Char} {c d : Char} {offset : Nat}

/-- The last line of the text, if it has any, is ended by a line break. -/
def IsLines (s : List Char) : Prop :=
  ∀ c ∈ s.getLast?, c = '\n'

theorem IsLines.of_append (h : IsLines (a ++ b)) : IsLines b := by
  intro c hc
  refine h c ?_
  rw [Option.mem_def] at hc ⊢
  rw [List.getLast?_append, hc, Option.some_or]

theorem IsLines.mem_of_ne_nil (h : IsLines s) (hs : s ≠ []) : '\n' ∈ s := by
  have hlast := List.getLast?_eq_some_getLast hs
  rw [← h _ hlast]
  exact List.getLast_mem hs

theorem IsLines.takeWhile_reverse (h : IsLines s) : s.reverse.takeWhile (· ≠ '\n') = [] := by
  rw [List.takeWhile_eq_nil_iff]
  intro hpos
  have hlast : s.getLast? = some s.reverse[0] := by
    rw [List.getLast?_eq_head?_reverse, List.head?_eq_getElem?, List.getElem?_eq_getElem hpos]
  simp [h _ hlast]

/-- A text with a line break ends with a line behind its last one. -/
theorem eq_append_cons_of_mem_last (h : '\n' ∈ s) : ∃ a b, s = a ++ '\n' :: b ∧ '\n' ∉ b := by
  obtain ⟨b, a, hs, hb⟩ := List.eq_append_cons_of_mem (List.mem_reverse.2 h)
  refine ⟨a.reverse, b.reverse, ?_, fun hmem => hb (List.mem_reverse.1 hmem)⟩
  rw [← List.reverse_reverse s, hs]
  simp

theorem forall_ne_of_notMem (h : '\n' ∉ s) : ∀ c ∈ s, decide (c ≠ '\n') = true := by
  intro c hc
  exact decide_eq_true fun heq => h (heq ▸ hc)

/-- The last line of a text gets longer by what is added without a line break. -/
theorem length_lastLine_append (s : List Char) (h : '\n' ∉ t) :
    ((s ++ t).reverse.takeWhile (· ≠ '\n')).length =
      (s.reverse.takeWhile (· ≠ '\n')).length + t.length := by
  have hall := forall_ne_of_notMem (mt List.mem_reverse.1 h)
  rw [List.reverse_append, List.takeWhile_append_of_pos hall, List.length_append,
    List.length_reverse, Nat.add_comm]

/-! ## Marks and seams -/

theorem pair_isInfix_append (ha : IsLines a) (hc : c ≠ '\n') (h : [c, d] <:+: a ++ b) :
    [c, d] <:+: a ∨ [c, d] <:+: b := by
  obtain ⟨x, y, hxy⟩ := h
  rw [List.append_assoc] at hxy
  rcases List.append_eq_append_iff.1 hxy with ⟨z, rfl, hz⟩ | ⟨z, rfl, hz⟩
  · -- the mark begins in the whole lines, or right behind them
    rcases z with _ | ⟨e, _ | ⟨f, z⟩⟩
    · exact Or.inr ⟨[], y, by simpa using hz⟩
    · have he : c = e := (List.cons.inj hz).1
      exact absurd (he.trans (ha e (by simp))) hc
    · simp only [List.cons_append, List.nil_append, List.cons.injEq] at hz
      obtain ⟨rfl, rfl, -⟩ := hz
      exact Or.inl ⟨x, z, by simp⟩
  · exact Or.inr ⟨z, y, by rw [hz, List.append_assoc]⟩

theorem pair_isPrefix_of_append (hs : IsLines s) (hne : s ≠ []) (hc : c ≠ '\n')
    (h : [c, d] <+: s ++ t) : [c, d] <+: s := by
  rcases s with _ | ⟨e, _ | ⟨f, s⟩⟩
  · exact absurd rfl hne
  · obtain ⟨y, hy⟩ := h
    have he : c = e := (List.cons.inj hy).1
    exact absurd (he.trans (hs e (by simp))) hc
  · refine List.prefix_of_prefix_length_le h (List.prefix_append _ t) ?_
    simp

theorem strip?_append (h : strip? mark s = some rest) (t : List Char) :
    strip? mark (s ++ t) = some (rest ++ t) := by
  rw [strip?_eq_some_iff] at h ⊢
  rw [h, List.append_assoc]

/-- The leftmost mark of a text is that of the text with more behind it. -/
theorem cutAt?_append (h : cutAt? mark s = some (before, after)) (t : List Char) :
    cutAt? mark (s ++ t) = some (before, after ++ t) := by
  induction s generalizing before with
  | nil =>
    have hmark : mark = [] := by
      by_contra hne
      simp [cutAt?, hne] at h
    cases t <;> simp_all [cutAt?, strip?]
  | cons x s ih =>
    rw [cutAt?_cons] at h
    rw [List.cons_append, cutAt?_cons]
    cases hstrip : strip? mark (x :: s) with
    | some tail =>
      rw [hstrip] at h
      cases h
      have hlong := strip?_append hstrip t
      rw [List.cons_append] at hlong
      rw [hlong]
    | none =>
      rw [hstrip] at h
      obtain ⟨⟨b, a⟩, hcut, hba⟩ := Option.map_eq_some_iff.1 h
      cases hba
      have hnone : strip? mark (x :: (s ++ t)) = none := by
        rw [strip?_eq_none_iff] at hstrip ⊢
        refine fun hpre => hstrip (List.prefix_of_prefix_length_le hpre ?_ ?_)
        · exact List.prefix_append (x :: s) t
        · have hlen := congrArg List.length (eq_append_of_cutAt?_eq_some hcut)
          simp only [List.length_append, List.length_cons] at hlen ⊢
          omega
      rw [hnone, ih hcut]
      rfl

/-- What follows the leftmost mark does not matter for the cut. -/
theorem cutAt?_of_append (h : cutAt? mark (before ++ mark ++ after) = some (before, after))
    (t : List Char) : cutAt? mark (before ++ mark ++ t) = some (before, t) := by
  rw [cutAt?_eq_some_iff] at h ⊢
  refine ⟨rfl, ?_⟩
  intro a b hab
  by_contra hlt
  -- a mark further left would lie inside what both texts begin with
  have hprefix : a ++ mark <+: before ++ mark := by
    refine List.prefix_of_prefix_length_le ⟨b, hab.symm⟩ (List.prefix_append _ t) ?_
    simp only [List.length_append]
    omega
  obtain ⟨x, hx⟩ := hprefix
  exact hlt (h.2 a (x ++ after) (by rw [← hx, List.append_assoc]))

/-! ## Positions -/

/-- The position of an offset on a character boundary is that behind the text before it. -/
theorem Position.ofOffset_byteSize (before rest : List Char) :
    Position.ofOffset (before ++ rest) (byteSize before) = Position.after before := by
  rw [ofOffset, upTo_byteSize]

/-- Whole lines in front of a text are counted, and change no column. -/
theorem Position.after_append (ha : IsLines a) : Position.after (a ++ b) =
    ⟨(Position.after b).line + a.count '\n', (Position.after b).column⟩ := by
  rw [Position.after, Position.after, List.count_append, List.reverse_append, List.takeWhile_append]
  congr 1
  · dsimp only
    omega
  · split
    · rename_i hall
      rw [ha.takeWhile_reverse, List.append_nil, hall]
    · rfl

theorem Position.ofOffset_append_right (ha : IsLines a) (hb : b = before ++ rest) :
    Position.ofOffset (a ++ b) (byteSize a + byteSize before) =
      ⟨(Position.ofOffset b (byteSize before)).line + a.count '\n',
        (Position.ofOffset b (byteSize before)).column⟩ := by
  rw [hb, ← byteSize_append, ← List.append_assoc, ofOffset_byteSize, ofOffset_byteSize,
    after_append ha]

/-- What follows a place in a text does not move it. -/
theorem Position.ofOffset_append_left (ha : a = before ++ rest) (b : List Char) :
    Position.ofOffset (a ++ b) (byteSize before) = Position.ofOffset a (byteSize before) := by
  rw [ha, List.append_assoc, ofOffset_byteSize, ofOffset_byteSize]

end TodoAudit.Text
