import TodoAudit.Proofs.Comment.Span

/-!
# Scanning for comments is greedy

The main statement is `todos_eq_greedy`: the todo comments of a text are the greedy comment spans
that hold the tag, in their order and with exactly their bytes. It comes from `greedy_scanFrom`,
an induction along the scan whose invariant is that the scan of the rest of a text gives the greedy
spans from where the rest begins.
-/

namespace TodoAudit.Comment

open Text

variable {s text rest before inside : List Char} {p e e' offset : Nat} {spans : List (Nat × Nat)}
  {c : Comment} {r : Refusal}

/-! ## Eating a comment is finding a span at byte zero -/

theorem blockSpan_zero_iff : BlockSpan (['/', '*'] ++ inside) 0 e ↔
    ∃ k, IsLeast {k | StandsAt ['*', '/'] inside k} k ∧ e = k + 4 := by
  have hleast : ∀ k,
      IsLeast {q | 0 + 2 ≤ q ∧ StandsAt ['*', '/'] (['/', '*'] ++ inside) q} (2 + k) ↔
      IsLeast {q | StandsAt ['*', '/'] inside q} k := by
    refine fun k => isLeast_add_iff (fun j => ?_) fun q hq => by omega
    rw [show 2 = byteSize ['/', '*'] from rfl, standsAt_append_iff]
    exact and_iff_right (by omega)
  constructor
  · rintro ⟨-, q, hq, rfl⟩
    obtain ⟨k, rfl⟩ := Nat.exists_eq_add_of_le (show 2 ≤ q by have := hq.1.1; omega)
    exact ⟨k, (hleast k).1 hq, by omega⟩
  · rintro ⟨k, hk, rfl⟩
    exact ⟨standsAt_zero_iff.2 (List.prefix_append _ _), 2 + k, (hleast k).2 hk, by omega⟩

theorem blockSpan_of_block (h : block s = .ok (text, rest)) : BlockSpan s 0 (byteSize text) := by
  obtain ⟨inside, body, rfl, hcut, rfl⟩ := block_eq_ok_iff.1 h
  rw [blockSpan_zero_iff]
  refine ⟨byteSize body, isLeast_of_cutAt? hcut, ?_⟩
  simp only [byteSize_append, show byteSize ['/', '*'] = 2 from rfl,
    show byteSize ['*', '/'] = 2 from rfl]
  omega

theorem not_blockSpan_of_block (h : block s = .error r) : ¬ BlockSpan s 0 e := by
  intro hspan
  obtain ⟨inside, rfl⟩ := standsAt_zero_iff.1 hspan.1
  have hcut := block_eq_error_iff.1 ⟨r, h⟩ inside rfl
  obtain ⟨k, hk, -⟩ := blockSpan_zero_iff.1 hspan
  exact cutAt?_eq_none_iff.1 hcut (exists_standsAt_iff.1 ⟨k, hk.1⟩)

theorem lineSpan_of_line (h : line s = .ok (text, rest)) : LineSpan s 0 (byteSize text) := by
  obtain ⟨inside, rfl, rfl, rfl⟩ := line_eq_ok_iff.1 h
  have htext : (['/', '/'] ++ inside).takeWhile (· ≠ '\n') =
      ['/', '/'] ++ inside.takeWhile (· ≠ '\n') := rfl
  refine ⟨standsAt_zero_iff.2 (List.prefix_append _ _), ?_⟩
  rw [← htext]
  simpa using isLeast_lineEnd (['/', '/'] ++ inside)

theorem not_lineSpan_of_line (h : line s = .error r) : ¬ LineSpan s 0 e := by
  intro hspan
  obtain ⟨inside, hs⟩ := standsAt_zero_iff.1 hspan.1
  exact line_eq_error_iff.1 ⟨r, h⟩ inside hs.symm

theorem isSpan_of_any (h : any s = .ok (text, rest)) : IsSpan s 0 (byteSize text) := by
  rcases any_eq_ok_iff.1 h with hblock | ⟨⟨r, hblock⟩, hline⟩
  · exact Or.inl (blockSpan_of_block hblock)
  · exact Or.inr ⟨fun _ => not_blockSpan_of_block hblock, lineSpan_of_line hline⟩

theorem not_isSpan_of_any (h : any s = .error r) : ¬ IsSpan s 0 e := by
  obtain ⟨⟨r, hblock⟩, ⟨r', hline⟩⟩ := any_eq_error_iff.1 ⟨r, h⟩
  rintro (hspan | ⟨-, hspan⟩)
  · exact not_blockSpan_of_block hblock hspan
  · exact not_lineSpan_of_line hline hspan

theorem IsSpan.slash (h : IsSpan s p e) : StandsAt ['/'] s p := by
  rcases h with ⟨⟨a, b, hs, ha⟩, -⟩ | ⟨-, ⟨a, b, hs, ha⟩, -⟩
  · exact ⟨a, '*' :: b, by rw [hs]; simp, ha⟩
  · exact ⟨a, '/' :: b, by rw [hs]; simp, ha⟩

/-! ## How comments begin -/

theorem opening_of_block (h : block s = .ok (text, rest)) : ['/', '*'] <+: text := by
  obtain ⟨inside, body, -, -, rfl⟩ := block_eq_ok_iff.1 h
  exact ⟨body ++ ['*', '/'], by simp⟩

theorem opening_of_line (h : line s = .ok (text, rest)) : ['/', '/'] <+: text := by
  obtain ⟨inside, -, rfl, -⟩ := line_eq_ok_iff.1 h
  exact List.prefix_append _ _

theorem opening_of_any (h : any s = .ok (text, rest)) :
    ['/', '/'] <+: text ∨ ['/', '*'] <+: text := by
  rcases any_eq_ok_iff.1 h with hblock | ⟨-, hline⟩
  · exact Or.inr (opening_of_block hblock)
  · exact Or.inl (opening_of_line hline)

/-! ## The scan -/

/-- The bytes that a comment takes: where it begins and where what follows it begins. -/
def span (c : Comment) : Nat × Nat :=
  (c.offset, c.offset + byteSize c.text)

theorem scanFrom_of_any (h : any s = .ok (text, rest)) :
    scanFrom offset s = ⟨offset, text⟩ :: scanFrom (offset + byteSize text) rest := by
  rw [scanFrom]
  split
  · rename_i h'
    cases h.symm.trans h'
    rfl
  · rename_i h'
    cases h.symm.trans h'

theorem scanFrom_cons_of_not_any {x : Char} (h : any (x :: s) = .error r) :
    scanFrom offset (x :: s) = scanFrom (offset + x.utf8Size) s := by
  rw [scanFrom]
  split
  · rename_i h'
    cases h.symm.trans h'
  · rfl

theorem scanFrom_nil : scanFrom offset [] = [] := by
  rw [scanFrom]
  rfl

/-- What is eaten at each step of a scan: a comment, or one character where none begins. -/
theorem scan_cases (s : List Char) : s = [] ∨ (∃ text rest, any s = .ok (text, rest)) ∨
    ∃ x tail r, s = x :: tail ∧ any s = .error r := by
  cases hs : any s with
  | ok eaten => exact Or.inr (Or.inl ⟨eaten.1, eaten.2, rfl⟩)
  | error r =>
    cases s with
    | nil => exact Or.inl rfl
    | cons x tail => exact Or.inr (Or.inr ⟨x, tail, r, rfl, rfl⟩)

/-- The scan of the rest of a text gives the greedy spans from where the rest begins. -/
theorem greedy_scanFrom (before s : List Char) :
    Greedy (before ++ s) (byteSize before) ((scanFrom (byteSize before) s).map span) := by
  -- on the length of the rest, which is what ends the scan
  induction hn : s.length using Nat.strong_induction_on generalizing before s with
  | _ n ih =>
    subst hn
    rcases scan_cases s with rfl | ⟨text, rest, hany⟩ | ⟨x, tail, r, rfl, hany⟩
    · rw [scanFrom_nil]
      refine .done ?_
      intro p hp e hspan
      obtain ⟨k, rfl⟩ := Nat.exists_eq_add_of_le hp
      exact not_standsAt_nil (by simp) (standsAt_append_iff.1 hspan.slash)
    · have hs := (eq_append_of_any hany).1
      have hspan : IsSpan (before ++ s) (byteSize before + 0) (byteSize before + byteSize text) :=
        isSpan_append_iff.2 (isSpan_of_any hany)
      have htail := ih rest.length (length_lt_of_any hany) (before ++ text) rest rfl
      rw [List.append_assoc, ← hs, byteSize_append] at htail
      rw [scanFrom_of_any hany]
      exact .next ⟨⟨le_rfl, _, hspan⟩, fun q hq => hq.1⟩ hspan htail
    · have htail := ih tail.length (by simp) (before ++ [x]) tail rfl
      rw [List.append_assoc, List.singleton_append, byteSize_append] at htail
      rw [scanFrom_cons_of_not_any hany]
      refine htail.skip (Nat.le_add_right _ _) ?_
      intro p hp hlt e hspan
      obtain ⟨k, rfl⟩ := Nat.exists_eq_add_of_le hp
      rcases Nat.eq_zero_or_pos k with rfl | hk
      · obtain ⟨j, hj⟩ := exists_isSpan_append_iff.1 ⟨e, hspan⟩
        exact not_isSpan_of_any hany hj
      · refine not_standsAt_of_lt_utf8Size hk ?_ (standsAt_append_iff.1 hspan.slash)
        simpa using hlt

/-- A comment that is found is eaten where it stands in the text, and its offset is the size of what
is before. -/
theorem any_of_mem_scanFrom (h : c ∈ scanFrom offset s) :
    ∃ front back, s = front ++ c.text ++ back ∧ c.offset = offset + byteSize front ∧
      any (c.text ++ back) = .ok (c.text, back) := by
  induction hn : s.length using Nat.strong_induction_on generalizing offset s with
  | _ n ih =>
    subst hn
    rcases scan_cases s with rfl | ⟨text, rest, hany⟩ | ⟨x, tail, r, rfl, hany⟩
    · rw [scanFrom_nil] at h
      cases h
    · have hs := (eq_append_of_any hany).1
      rw [scanFrom_of_any hany] at h
      rcases List.mem_cons.1 h with rfl | h
      · exact ⟨[], rest, by simpa using hs, by simp, by rwa [hs] at hany⟩
      · obtain ⟨front, back, hrest, hoff, heats⟩ := ih rest.length (length_lt_of_any hany) h rfl
        exact ⟨text ++ front, back, by rw [hs, hrest]; simp, by rw [hoff]; simp; omega, heats⟩
    · rw [scanFrom_cons_of_not_any hany] at h
      obtain ⟨front, back, hrest, hoff, heats⟩ := ih tail.length (by simp) h rfl
      exact ⟨x :: front, back, by rw [hrest]; simp, by rw [hoff]; simp; omega, heats⟩

theorem split_of_mem_scan (h : c ∈ scan s) :
    ∃ front back, s = front ++ c.text ++ back ∧ c.offset = byteSize front := by
  obtain ⟨front, back, hs, hoffset, -⟩ := any_of_mem_scanFrom h
  exact ⟨front, back, hs, by simpa using hoffset⟩

theorem between_span (h : c ∈ scan s) : between s c.span.1 c.span.2 = c.text := by
  obtain ⟨front, back, hs, hoff⟩ := split_of_mem_scan h
  rw [span, hoff, hs, ← byteSize_append]
  exact between_byteSize front c.text back

theorem greedy_scan (s : List Char) : Greedy s 0 ((scan s).map span) :=
  greedy_scanFrom [] s

/-! ## What greedy spans are like -/

theorem Greedy.le_and_lt_of_mem (h : Greedy s e spans) {sp : Nat × Nat} (hsp : sp ∈ spans) :
    e ≤ sp.1 ∧ sp.1 < sp.2 := by
  induction h with
  | done => cases hsp
  | next hp he _ ih =>
    rcases List.mem_cons.1 hsp with rfl | hsp
    · exact ⟨hp.1.1, he.lt⟩
    · have hlt := he.lt
      have hle := hp.1.1
      have hrest := ih hsp
      omega

/-- Greedy spans follow one another and never overlap. -/
theorem Greedy.pairwise (h : Greedy s e spans) : spans.Pairwise fun a b => a.2 ≤ b.1 := by
  induction h with
  | done => exact List.Pairwise.nil
  | next _ _ hs ih => exact List.Pairwise.cons (fun sp hsp => (hs.le_and_lt_of_mem hsp).1) ih

/-- A span that begins outside the earlier ones is never missed. -/
theorem Greedy.mem_of_isSpan (h : Greedy s e spans) (hp : e ≤ p) (hspan : IsSpan s p e')
    (hout : ∀ sp ∈ spans, sp.1 < p → sp.2 ≤ p) : (p, e') ∈ spans := by
  induction h with
  | done hno => exact absurd hspan (hno p hp e')
  | @next _ p₀ e₀ spans hp₀ he₀ _ ih =>
    rcases (hp₀.2 ⟨hp, e', hspan⟩).lt_or_eq with hlt | rfl
    · have hrest := ih (hout (p₀, e₀) List.mem_cons_self hlt)
        fun sp hsp => hout sp (List.mem_cons_of_mem _ hsp)
      exact List.mem_cons_of_mem _ hrest
    · rw [hspan.unique he₀]
      exact List.mem_cons_self

/-- A `/*` that is never closed is as if it were not there. -/
theorem greedy_unclosed_iff (hopen : StandsAt ['/', '*'] s p)
    (hclose : ∀ q, p + 2 ≤ q → ¬ StandsAt ['*', '/'] s q) :
    Greedy s p spans ↔ Greedy s (p + 2) spans := by
  obtain ⟨a, b, rfl, rfl⟩ := hopen
  refine greedy_iff_of_not_isSpan (by omega) ?_
  intro q hq hlt e hspan
  rcases (by omega : q = byteSize a ∨ q = byteSize a + 1) with rfl | rfl
  · rcases hspan with ⟨-, m, hm, -⟩ | ⟨-, hline, -⟩
    · exact hclose m hm.1.1 hm.1.2
    · rw [List.append_assoc, ← Nat.add_zero (byteSize a), standsAt_append_iff,
        standsAt_zero_iff] at hline
      simp at hline
  · have hstar := hspan.slash
    rw [List.append_assoc, standsAt_append_iff, show ['/', '*'] ++ b = ['/'] ++ ('*' :: b) from rfl,
      show 1 = byteSize ['/'] + 0 from rfl, standsAt_append_iff, standsAt_zero_iff] at hstar
    simp at hstar

/-! ## The todo comments of a text -/

theorem isTodo_iff : isTodo c = true ↔ tag <:+: c.text :=
  occurs_iff

theorem map_between_span (s : List Char) :
    ((scan s).map span).map (fun sp => (⟨sp.1, between s sp.1 sp.2⟩ : Comment)) = scan s := by
  rw [List.map_map]
  refine (List.map_congr_left fun c hc => ?_).trans (List.map_id _)
  exact congrArg (Comment.mk c.offset) (between_span hc)

theorem pairwise_todos (s : List Char) :
    (todos s).Pairwise fun a b => a.offset + byteSize a.text ≤ b.offset ∧ a.offset < b.offset := by
  have hgreedy := greedy_scan s
  have hscan : (scan s).Pairwise fun a b => a.span.2 ≤ b.span.1 :=
    List.pairwise_map.1 hgreedy.pairwise
  refine (hscan.imp_of_mem fun {a b} ha _ hab => ?_).filter _
  have hlt := (hgreedy.le_and_lt_of_mem (List.mem_map_of_mem ha)).2
  exact ⟨hab, Nat.lt_of_lt_of_le hlt hab⟩

/-- The bytes of a comment that is found are the bytes of the text from its offset on. -/
theorem toByteArray_of_mem_scan {text : String} (h : c ∈ scan text.toList) :
    (String.ofList c.text).toByteArray =
      text.toByteArray.extract c.offset (c.offset + byteSize c.text) := by
  obtain ⟨front, back, hs, hoff⟩ := split_of_mem_scan h
  rw [hoff]
  exact toByteArray_of_split hs

/-- The todo comments of a text are the greedy comment spans in which the tag occurs, in order,
each with its offset and exactly its bytes. So they never overlap, their offsets increase, no span
outside the earlier ones is missed, and a `/*` that is never closed hides nothing behind it. -/
theorem todos_eq_greedy (text : String) :
    ∃ spans, Greedy text.toList 0 spans ∧
      (∀ other, Greedy text.toList 0 other → other = spans) ∧
      todos text.toList = (spans.map fun sp => ⟨sp.1, between text.toList sp.1 sp.2⟩).filter
        (fun c => tag <:+: c.text) ∧
      (∀ c ∈ todos text.toList, (String.ofList c.text).toByteArray =
        text.toByteArray.extract c.offset (c.offset + byteSize c.text)) ∧
      ((todos text.toList).Pairwise fun a b =>
        a.offset + byteSize a.text ≤ b.offset ∧ a.offset < b.offset) ∧
      (∀ p e, IsSpan text.toList p e → (∀ sp ∈ spans, sp.1 < p → sp.2 ≤ p) → (p, e) ∈ spans) ∧
      ∀ p, StandsAt ['/', '*'] text.toList p →
        (∀ q, p + 2 ≤ q → ¬ StandsAt ['*', '/'] text.toList q) →
        ∀ rest, Greedy text.toList p rest ↔ Greedy text.toList (p + 2) rest := by
  have hgreedy := greedy_scan text.toList
  refine ⟨(scan text.toList).map span, hgreedy, fun other h => h.unique hgreedy, ?_, ?_,
    pairwise_todos _, fun p e hspan hout => hgreedy.mem_of_isSpan (Nat.zero_le p) hspan hout,
    fun p hopen hclose rest => greedy_unclosed_iff hopen hclose⟩
  · rw [map_between_span, todos]
    refine List.filter_congr ?_
    intro c _
    rw [Bool.eq_iff_iff, isTodo_iff, decide_eq_true_iff]
  · intro c hc
    exact toByteArray_of_mem_scan (List.mem_of_mem_filter hc)

end TodoAudit.Comment
