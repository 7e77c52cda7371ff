import TodoAudit.Proofs.Json.Reading
import TodoAudit.Proofs.Text.Trimming

/-!
# JSON is unambiguous

A text is a written form of one document at most (`Document.IsWritten.unique`). What a text is
shows in its first character; only a number has no character that ends it, and is as long as it can
be, so that two documents at the beginning of a text are the same if neither number could go on
(`Ends`).
-/

namespace TodoAudit.Json

open Text

variable {s t t' u w rest rest' : List Char} {c : Char} {v v' : Document} {first : Bool}

/-! ## Numbers -/

/-- A character that can occur in a number. -/
def OfNumeral (c : Char) : Prop :=
  Decimal.isDigit c = true ∨ c ∈ ['-', '+', '.', 'e', 'E']

instance (c : Char) : Decidable (OfNumeral c) :=
  inferInstanceAs (Decidable (_ ∨ _))

/-- A number that stands before the text does not go on in it. -/
def Ends (s : List Char) : Prop :=
  ∀ c, s.head? = some c → ¬ OfNumeral c

theorem IsDigits.ofNumeral (h : IsDigits s) : ∀ c ∈ s, OfNumeral c :=
  fun c hc => .inl (h.2 c hc)

theorem IsNumeral.ofNumeral (h : IsNumeral s) : ∀ c ∈ s, OfNumeral c := by
  obtain ⟨hsign, hwhole, hfraction, hexponent⟩ := h
  simp only [List.forall_mem_append]
  refine ⟨⟨⟨?_, hwhole.1.ofNumeral⟩, ?_⟩, ?_⟩
  · rcases hsign with rfl | rfl <;> simp [OfNumeral]
  · cases hfraction with
    | none => simp
    | some hdigits => exact List.forall_mem_cons.2 ⟨by decide, hdigits.ofNumeral⟩
  · cases hexponent with
    | none => simp
    | some he hsign hdigits =>
      simp only [List.cons_append, List.forall_mem_cons, List.forall_mem_append]
      refine ⟨?_, ?_, hdigits.ofNumeral⟩
      · rcases he with rfl | rfl <;> decide
      · simp only [List.mem_cons, List.not_mem_nil, or_false] at hsign
        rcases hsign with rfl | rfl | rfl <;> simp [OfNumeral]

/-- A number begins with a digit or a minus sign. -/
theorem IsNumeral.exists_cons (h : IsNumeral s) :
    ∃ c u, s = c :: u ∧ (c = '-' ∨ Decimal.isDigit c = true) := by
  obtain ⟨hsign, hwhole, -, -⟩ := h
  rcases hsign with rfl | rfl
  · obtain ⟨c, u, rfl⟩ := List.exists_cons_of_ne_nil hwhole.1.1
    exact ⟨c, _, rfl, .inr (hwhole.1.2 c List.mem_cons_self)⟩
  · exact ⟨'-', _, rfl, .inl rfl⟩

/-- Where numbers end is told by what follows them. -/
theorem IsNumeral.unique (h : IsNumeral s) (h' : IsNumeral w) (heq : s ++ t = w ++ t')
    (ht : Ends t) (ht' : Ends t') : s = w ∧ t = t' := by
  have key : ∀ {x y : List Char}, IsNumeral x → Ends y →
      (x ++ y).takeWhile (fun c => decide (OfNumeral c)) = x := by
    intro x y hx hy
    apply takeWhile_append_of_stop
    · intro c hc
      exact decide_eq_true (hx.ofNumeral c hc)
    · intro c hc
      exact decide_eq_false (hy c hc)
  have hsw : s = w := by rw [← key h ht, heq, key h' ht']
  subst hsw
  exact ⟨rfl, List.append_cancel_left heq⟩

/-! ## The first character -/

/-- What a document is that begins with the character. -/
def Document.GoesOn (v : Document) (c : Char) (s rest : List Char) : Prop :=
  match c with
  | 'n' => v = .null ∧ s = 'u' :: 'l' :: 'l' :: rest
  | 't' => v = .boolean true ∧ s = 'r' :: 'u' :: 'e' :: rest
  | 'f' => v = .boolean false ∧ s = 'a' :: 'l' :: 's' :: 'e' :: rest
  | '"' => ∃ cs, v = .string cs ∧ Chars cs s rest
  | '[' => ∃ vs, v = .list vs ∧ Items Document.Spells ']' true vs s rest
  | '{' => ∃ fs, v = .object fs ∧ Items Document.SpellsField '}' true fs s rest
  | c => ∃ numeral, v = .number numeral ∧ IsNumeral numeral ∧ c :: s = numeral ++ rest

theorem spells_cons_iff : v.Spells (c :: s) rest ↔ v.GoesOn c s rest := by
  constructor
  · intro h
    generalize hs : c :: s = text at h
    cases h with
    | null => cases hs; exact ⟨rfl, rfl⟩
    | yes => cases hs; exact ⟨rfl, rfl⟩
    | no => cases hs; exact ⟨rfl, rfl⟩
    | string h => cases hs; exact ⟨_, rfl, h⟩
    | list h => cases hs; exact ⟨_, rfl, h⟩
    | object h => cases hs; exact ⟨_, rfl, h⟩
    | @number numeral _ h =>
      obtain ⟨d, u, rfl, hd⟩ := h.exists_cons
      obtain ⟨rfl, rfl⟩ := List.cons.inj hs
      unfold Document.GoesOn
      split
      · exact absurd hd (by decide)
      · exact absurd hd (by decide)
      · exact absurd hd (by decide)
      · exact absurd hd (by decide)
      · exact absurd hd (by decide)
      · exact absurd hd (by decide)
      · exact ⟨_, rfl, h, rfl⟩
  · intro h
    unfold Document.GoesOn at h
    split at h
    · obtain ⟨rfl, rfl⟩ := h
      exact .null
    · obtain ⟨rfl, rfl⟩ := h
      exact .yes
    · obtain ⟨rfl, rfl⟩ := h
      exact .no
    · obtain ⟨cs, rfl, h⟩ := h
      exact .string h
    · obtain ⟨vs, rfl, h⟩ := h
      exact .list h
    · obtain ⟨fs, rfl, h⟩ := h
      exact .object h
    · obtain ⟨numeral, rfl, h, hs⟩ := h
      rw [hs]
      exact .number h

/-- A document begins with a character that is no blank and cannot stand between items. -/
theorem Document.Spells.exists_cons (h : v.Spells s rest) :
    ∃ c u, s = c :: u ∧ Json.isBlank c = false ∧ c ≠ ']' := by
  cases h with
  | null => exact ⟨_, _, rfl, by decide, by decide⟩
  | yes => exact ⟨_, _, rfl, by decide, by decide⟩
  | no => exact ⟨_, _, rfl, by decide, by decide⟩
  | string => exact ⟨_, _, rfl, by decide, by decide⟩
  | list => exact ⟨_, _, rfl, by decide, by decide⟩
  | object => exact ⟨_, _, rfl, by decide, by decide⟩
  | number h =>
    obtain ⟨c, u, rfl, hc⟩ := h.exists_cons
    refine ⟨c, _, rfl, ?_, ?_⟩
    · by_contra hblank
      rw [Bool.not_eq_false, isBlank_iff] at hblank
      simp only [List.mem_cons, List.not_mem_nil, or_false] at hblank
      rcases hblank with rfl | rfl | rfl | rfl <;> exact absurd hc (by decide)
    · rintro rfl
      exact absurd hc (by decide)

/-! ## Items in brackets -/

/-- Items of the kind can be told from the bracket behind them, and from what stands between them. -/
structure Encloses {α : Type} (item : α → List Char → List Char → Prop) (bracket : Char) :
    Prop where
  not_isBlank : Json.isBlank bracket = false
  ne_comma : bracket ≠ ','
  not_ofNumeral : ¬ OfNumeral bracket
  exists_cons : ∀ {x s t}, item x s t → ∃ c u, s = c :: u ∧ Json.isBlank c = false ∧ c ≠ bracket

/-- A text has only one such item at its beginning, where no number can go on behind it. -/
def IsUnique {α : Type} (item : α → List Char → List Char → Prop) (x : α) : Prop :=
  ∀ {y s t t'}, item x s t → item y s t' → Ends t → Ends t' → x = y ∧ t = t'

section

variable {α : Type} {item : α → List Char → List Char → Prop} {bracket : Char} {xs ys : List α}

theorem ends_nil : Ends [] := by
  simp [Ends]

theorem ends_cons (hc : ¬ OfNumeral c) : Ends (c :: s) := by
  intro d hd
  obtain rfl : c = d := by simpa using hd
  exact hc

/-- Blanks end a number. -/
theorem Blanks.ends (h : Blanks s rest) (hrest : Ends rest) : Ends s := by
  obtain ⟨blanks, rfl, hblanks⟩ := h
  cases blanks with
  | nil => exact hrest
  | cons b blanks =>
    apply ends_cons
    have hb := hblanks b List.mem_cons_self
    simp only [List.mem_cons, List.not_mem_nil, or_false] at hb
    rcases hb with rfl | rfl | rfl | rfl <;> decide

theorem Items.ends (hbracket : ¬ OfNumeral bracket) (h : Items item bracket false xs s rest) :
    Ends s := by
  cases h with
  | done h => exact h.ends (ends_cons hbracket)
  | item h _ _ =>
    cases h with
    | comma h _ => exact h.ends (ends_cons (by decide))

theorem Separator.unique {d : Char} (h : Separator first s (c :: t))
    (h' : Separator first s (d :: t')) (hc : isBlank c = false) (hd : isBlank d = false) :
    c = d ∧ t = t' := by
  cases h with
  | first h =>
    cases h' with
    | first h' => exact h.unique h' hc hd
  | comma h hb =>
    cases h' with
    | comma h' hb' =>
      obtain ⟨-, rfl⟩ := h.unique h' (by decide) (by decide)
      exact hb.unique hb' hc hd

/-- No further item is where the bracket is. -/
theorem Encloses.not_separator (he : Encloses item bracket) (h : Blanks s (bracket :: rest))
    (hc : isBlank c = false) (hne : c ≠ bracket) : ¬ Separator first s (c :: t) := by
  intro hsep
  cases hsep with
  | first h' => exact hne (h.unique h' he.not_isBlank hc).1.symm
  | comma h' _ => exact he.ne_comma (h.unique h' he.not_isBlank (by decide)).1

/-- Items are told apart if each of them is. -/
theorem Items.unique (he : Encloses item bracket) (hxs : ∀ x ∈ xs, IsUnique item x)
    (h : Items item bracket first xs s rest) (h' : Items item bracket first ys s rest') :
    xs = ys ∧ rest = rest' := by
  -- no item begins with the bracket, so the one ends where the other does
  induction h generalizing ys with
  | done hdone =>
    cases h' with
    | done hdone' =>
      exact ⟨rfl, (hdone.unique hdone' he.not_isBlank he.not_isBlank).2⟩
    | item hsep hitem _ =>
      obtain ⟨c, u, rfl, hc, hne⟩ := he.exists_cons hitem
      exact absurd hsep (he.not_separator hdone hc hne)
  | item hsep hitem hmore ih =>
    obtain ⟨c, u, rfl, hc, hne⟩ := he.exists_cons hitem
    cases h' with
    | done hdone' => exact absurd hsep (he.not_separator hdone' hc hne)
    | item hsep' hitem' hmore' =>
      obtain ⟨d, w, rfl, hd, -⟩ := he.exists_cons hitem'
      obtain ⟨rfl, rfl⟩ := hsep.unique hsep' hc hd
      rw [List.forall_mem_cons] at hxs
      obtain ⟨rfl, rfl⟩ := hxs.1 hitem hitem' (hmore.ends he.not_ofNumeral)
        (hmore'.ends he.not_ofNumeral)
      obtain ⟨rfl, rfl⟩ := ih hxs.2 hmore'
      exact ⟨rfl, rfl⟩

end

theorem encloses_list : Encloses Document.Spells ']' where
  not_isBlank := by decide
  ne_comma := by decide
  not_ofNumeral := by decide
  exists_cons := Document.Spells.exists_cons

theorem encloses_object : Encloses Document.SpellsField '}' where
  not_isBlank := by decide
  ne_comma := by decide
  not_ofNumeral := by decide
  exists_cons := by
    intro f s t h
    cases h with
    | field => exact ⟨_, _, rfl, by decide, by decide⟩

/-! ## Documents -/

/-- What a document is made of. -/
def Document.parts : Document → List Document
  | .list elements => elements
  | .object fields => fields.map Prod.snd
  | _ => []

theorem Document.sizeOf_lt_of_mem_parts (h : v' ∈ v.parts) : sizeOf v' < sizeOf v := by
  cases v with
  | list elements =>
    have hlt := List.sizeOf_lt_of_mem (show v' ∈ elements from h)
    rw [Document.list.sizeOf_spec]
    omega
  | object fields =>
    obtain ⟨⟨key, w⟩, hmem, rfl⟩ := List.mem_map.1 (show v' ∈ fields.map Prod.snd from h)
    have hlt := List.sizeOf_lt_of_mem hmem
    rw [Prod.mk.sizeOf_spec] at hlt
    rw [Document.object.sizeOf_spec]
    dsimp only
    omega
  | null => cases h
  | boolean => cases h
  | number => cases h
  | string => cases h

/-- What holds of a document if it holds of its parts holds of every document. -/
theorem Document.induction {P : Document → Prop} (h : ∀ v, (∀ w ∈ v.parts, P w) → P v)
    (v : Document) : P v :=
  h v fun w _ => Document.induction h w
termination_by sizeOf v
decreasing_by exact Document.sizeOf_lt_of_mem_parts ‹_›

theorem isUnique_field {key : List Char} (h : IsUnique Document.Spells v) :
    IsUnique Document.SpellsField (key, v) := by
  intro f s t t' hf hf' ht ht'
  cases hf with
  | field hkey hcolon hblanks hv =>
    cases hf' with
    | field hkey' hcolon' hblanks' hv' =>
      cases (chars_eq_ok_iff.2 hkey).symm.trans (chars_eq_ok_iff.2 hkey')
      obtain ⟨-, rfl⟩ := hcolon.unique hcolon' (by decide) (by decide)
      obtain ⟨c, u, rfl, hc, -⟩ := hv.exists_cons
      obtain ⟨d, w, rfl, hd, -⟩ := hv'.exists_cons
      obtain ⟨rfl, rfl⟩ := hblanks.unique hblanks' hc hd
      obtain ⟨rfl, rfl⟩ := h hv hv' ht ht'
      exact ⟨rfl, rfl⟩

/-- A text has only one document at its beginning, where no number can go on behind it. -/
theorem Document.isUnique (v : Document) : IsUnique Document.Spells v := by
  induction v using Document.induction with
  | h v ih =>
    intro v' s t t' h h' ht ht'
    obtain ⟨c, u, rfl, -⟩ := h.exists_cons
    -- the two begin with the same character, which tells what kind of document they are
    rw [spells_cons_iff] at h h'
    unfold Document.GoesOn at h
    split at h
    · obtain ⟨rfl, rfl⟩ := h
      obtain ⟨rfl, heq⟩ := h'
      exact ⟨rfl, by simpa using heq⟩
    · obtain ⟨rfl, rfl⟩ := h
      obtain ⟨rfl, heq⟩ := h'
      exact ⟨rfl, by simpa using heq⟩
    · obtain ⟨rfl, rfl⟩ := h
      obtain ⟨rfl, heq⟩ := h'
      exact ⟨rfl, by simpa using heq⟩
    · obtain ⟨cs, rfl, hcs⟩ := h
      obtain ⟨cs', rfl, hcs'⟩ := h'
      cases (chars_eq_ok_iff.2 hcs).symm.trans (chars_eq_ok_iff.2 hcs')
      exact ⟨rfl, rfl⟩
    · obtain ⟨vs, rfl, hvs⟩ := h
      obtain ⟨vs', rfl, hvs'⟩ := h'
      obtain ⟨rfl, rfl⟩ := Items.unique encloses_list ih hvs hvs'
      exact ⟨rfl, rfl⟩
    · obtain ⟨fs, rfl, hfs⟩ := h
      obtain ⟨fs', rfl, hfs'⟩ := h'
      have hfields : ∀ f ∈ fs, IsUnique Document.SpellsField f := fun f hf =>
        isUnique_field (ih f.2 (List.mem_map_of_mem hf))
      obtain ⟨rfl, rfl⟩ := Items.unique encloses_object hfields hfs hfs'
      exact ⟨rfl, rfl⟩
    · obtain ⟨numeral, rfl, hnumeral, hs⟩ := h
      obtain ⟨numeral', rfl, hnumeral', hs'⟩ : ∃ numeral', v' = .number numeral' ∧
          IsNumeral numeral' ∧ c :: u = numeral' ++ t' := by
        unfold Document.GoesOn at h'
        split at h' <;> trivial
      obtain ⟨rfl, rfl⟩ := hnumeral.unique hnumeral' (hs.symm.trans hs') ht ht'
      exact ⟨rfl, rfl⟩

/-- A text is a written form of one document at most. -/
theorem Document.IsWritten.unique (h : v.IsWritten s) (h' : v'.IsWritten s) : v = v' := by
  obtain ⟨t, u, hs, hv, hu⟩ := h
  obtain ⟨t', u', hs', hv', hu'⟩ := h'
  obtain ⟨c, w, rfl, hc, -⟩ := hv.exists_cons
  obtain ⟨d, w', rfl, hd, -⟩ := hv'.exists_cons
  obtain ⟨rfl, rfl⟩ := hs.unique hs' hc hd
  exact (v.isUnique hv hv' (hu.ends ends_nil) (hu'.ends ends_nil)).1

end TodoAudit.Json
