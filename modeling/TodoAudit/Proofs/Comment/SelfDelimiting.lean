import TodoAudit.Proofs.Comment.WholeLines
import TodoAudit.Proofs.Text.Trimming

/-!
# Comments delimit themselves

What has been cut out of a text as a comment is one comment wherever it stands, as long as the text
or the line ends behind it (`any_of_stop`): no closing mark and no line break lies inside it, and
nothing that it leaves open merges with what follows. So comments can be taken out of their
surroundings and written one below the other, and a scan finds just them again
(`todos_selfDelimiting`). The induction is over the comments, each of which is one step of the scan
and the line break behind it another (`scan_intercalate`).
-/

namespace TodoAudit.Comment

open Text

variable {s t text rest : List Char} {texts : List (List Char)} {c : Comment}

/-! ## A comment in other surroundings -/

theorem block_of_append (h : block (text ++ rest) = .ok (text, rest)) (t : List Char) :
    block (text ++ t) = .ok (text, t) := by
  obtain ⟨inside, body, hs, hcut, rfl⟩ := block_eq_ok_iff.1 h
  obtain rfl := eq_append_of_cutAt?_eq_some hcut
  exact block_eq_ok_iff.2
    ⟨body ++ ['*', '/'] ++ t, body, by simp, cutAt?_of_append hcut t, rfl⟩

theorem line_of_stop (h : line (text ++ rest) = .ok (text, rest))
    (ht : ∀ x, t.head? = some x → x = '\n') : line (text ++ t) = .ok (text, t) := by
  obtain ⟨inside, -, rfl, -⟩ := line_eq_ok_iff.1 h
  have hbody : ∀ x ∈ inside.takeWhile (· ≠ '\n'), decide (x ≠ '\n') = true :=
    fun x hx => List.mem_takeWhile_imp (p := fun x => decide (x ≠ '\n')) hx
  have hstop : ∀ x, t.head? = some x → decide (x ≠ '\n') = false := by
    intro x hx
    simp [ht x hx]
  refine line_eq_ok_iff.2 ⟨inside.takeWhile (· ≠ '\n') ++ t, List.append_assoc _ _ _, ?_, ?_⟩
  · rw [takeWhile_append_of_stop hbody hstop]
  · rw [dropWhile_append_of_stop hbody hstop]

/-- What is a comment in one text is one in every other, if the text or the line ends behind it. -/
theorem any_of_stop (h : any (text ++ rest) = .ok (text, rest))
    (ht : ∀ x, t.head? = some x → x = '\n') : any (text ++ t) = .ok (text, t) := by
  rw [any_eq_ok_iff] at h ⊢
  rcases h with hblock | ⟨-, hline⟩
  · exact .inl (block_of_append hblock t)
  · refine .inr ⟨block_eq_error_iff.2 ?_, line_of_stop hline ht⟩
    -- no block comment begins where a line comment does
    obtain ⟨tail, rfl⟩ := opening_of_line hline
    intro inside hinside
    simp at hinside

/-! ## Comments one below the other -/

/-- The texts as comments that stand one below the other: in front of each are the earlier ones,
with a line break behind every one of them. -/
def onLines (texts : List (List Char)) : List Comment :=
  texts.mapIdx fun i text => ⟨byteSize ((texts.take i).flatMap (· ++ ['\n'])), text⟩

theorem onLines_cons (text : List Char) (texts : List (List Char)) :
    onLines (text :: texts) = ⟨0, text⟩ :: (onLines texts).map (moved (byteSize text + 1)) := by
  rw [onLines, List.mapIdx_cons]
  congr 1
  refine List.ext_getElem (by simp [onLines]) ?_
  intro i hi hi'
  have hbreak : byteSize ['\n'] = 1 := rfl
  simp only [onLines, moved, List.getElem_mapIdx, List.getElem_map, List.take_succ_cons,
    List.flatMap_cons, byteSize_append, hbreak, Comment.mk.injEq, and_true]
  omega

theorem text_mem_of_mem_onLines (h : c ∈ onLines texts) : c.text ∈ texts := by
  obtain ⟨i, hi, rfl⟩ := List.mem_mapIdx.1 h
  exact List.getElem_mem hi

theorem scan_of_any (h : any text = .ok (text, [])) : scan text = [⟨0, text⟩] := by
  rw [scan, scanFrom_of_any h, scanFrom_nil]

/-- A comment is one step of the scan, and the line break behind it is another. -/
theorem scan_append_break (h : any text = .ok (text, [])) (t : List Char) :
    scan (text ++ '\n' :: t) = ⟨0, text⟩ :: (scan t).map (moved (byteSize text + 1)) := by
  have halone : any (text ++ []) = .ok (text, []) := by rwa [List.append_nil]
  have hcomment : any (text ++ '\n' :: t) = .ok (text, '\n' :: t) :=
    any_of_stop halone (by simp)
  have hbreak : any ('\n' :: t) = refuse .mark ('\n' :: t) := rfl
  rw [scan, scanFrom_of_any hcomment, scanFrom_cons_of_not_any hbreak, scanFrom_eq_map_scan,
    Nat.zero_add]
  rfl

/-- Comments one below the other are found again, and nothing else is. -/
theorem scan_intercalate (h : ∀ text ∈ texts, any text = .ok (text, [])) :
    scan (['\n'].intercalate texts) = onLines texts := by
  induction texts with
  | nil => exact scanFrom_nil
  | cons text texts ih =>
    rw [List.forall_mem_cons] at h
    cases texts with
    | nil =>
      rw [List.intercalate_singleton, scan_of_any h.1]
      rfl
    | cons next texts =>
      rw [List.intercalate_cons_cons, List.append_assoc, List.singleton_append,
        scan_append_break h.1, ih h.2, onLines_cons text]

theorem any_of_mem_todos (h : c ∈ todos s) : any c.text = .ok (c.text, []) := by
  obtain ⟨front, back, -, -, hany⟩ := any_of_mem_scanFrom (List.mem_of_mem_filter h)
  simpa using any_of_stop (t := []) hany (by simp)

/-- Todo comments one below the other are found again, and nothing else is. -/
theorem todos_intercalate (h : ∀ text ∈ texts, any text = .ok (text, []) ∧ tag <:+: text) :
    todos (['\n'].intercalate texts) = onLines texts := by
  rw [todos, scan_intercalate fun text htext => (h text htext).1, List.filter_eq_self]
  intro c hc
  exact isTodo_iff.2 (h c.text (text_mem_of_mem_onLines hc)).2

/-- Each todo comment of a text is exactly one comment when it stands alone. All of them, one below
the other, are exactly the comments of what they make up, in their order and each at the place where
it has been put. -/
theorem todos_selfDelimiting (text : List Char) :
    (∀ c ∈ todos text, todos c.text = [⟨0, c.text⟩]) ∧
      todos (['\n'].intercalate ((todos text).map Comment.text)) =
        onLines ((todos text).map Comment.text) := by
  have hwhole : ∀ word ∈ (todos text).map Comment.text,
      any word = .ok (word, []) ∧ tag <:+: word := by
    intro word hword
    obtain ⟨c, hc, rfl⟩ := List.mem_map.1 hword
    exact ⟨any_of_mem_todos hc, isTodo_iff.1 (List.of_mem_filter hc)⟩
  refine ⟨?_, todos_intercalate hwhole⟩
  intro c hc
  have halone : todos (['\n'].intercalate [c.text]) = onLines [c.text] :=
    todos_intercalate (by simpa using hwhole c.text (List.mem_map_of_mem hc))
  rwa [List.intercalate_singleton, onLines_cons] at halone

/-- The line comment opens a block that the comment below it could close. -/
theorem todos_selfDelimiting_openings :
    ⟨16, "// TODO /* é".toList⟩ ∈
        todos "a /*/ TODO */ b // TODO /* é\n/* x */ /* TODO // b\n*/".toList ∧
      todos "// TODO /* é".toList = [⟨0, "// TODO /* é".toList⟩] ∧
      todos "/*/ TODO */\n// TODO /* é\n/* TODO // b\n*/".toList =
        [⟨0, "/*/ TODO */".toList⟩, ⟨12, "// TODO /* é".toList⟩,
          ⟨26, "/* TODO // b\n*/".toList⟩] := by
  have htodos : todos "a /*/ TODO */ b // TODO /* é\n/* x */ /* TODO // b\n*/".toList =
      [⟨2, "/*/ TODO */".toList⟩, ⟨16, "// TODO /* é".toList⟩,
        ⟨38, "/* TODO // b\n*/".toList⟩] := by
    cbv
  obtain ⟨halone, htogether⟩ :=
    todos_selfDelimiting "a /*/ TODO */ b // TODO /* é\n/* x */ /* TODO // b\n*/".toList
  rw [htodos] at halone htogether ⊢
  exact ⟨by simp, halone ⟨16, "// TODO /* é".toList⟩ (by simp), htogether⟩

end TodoAudit.Comment
