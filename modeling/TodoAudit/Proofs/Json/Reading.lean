import TodoAudit.Proofs.Json.Grammar
import TodoAudit.Proofs.Success

/-!
# What the readers read

For each reader, when it succeeds and with what: it reads exactly what the grammar says, no less and
no more. Main statements are `chars_eq_ok_iff` for strings with their escapes, `string_eq_ok_iff`
and `strings_eq_ok_iff`.
-/

namespace TodoAudit.Json

variable {s t rest : List Char} {c d : Char} {n m : Nat} {a : String} {as : List String}
  {first : Bool} {v : Document}

/-! ## Words -/

theorem word_eq_ok_iff {letters : List Char} : word letters s = .ok rest ↔ s = letters ++ rest := by
  induction letters generalizing s with
  | nil => simp [word, eq_comm]
  | cons a letters ih =>
    cases s with
    | nil => simp [word, unfinished]
    | cons c s =>
      by_cases h : a = c
      · simp [word, h, ih]
      · simp [word, h, Ne.symm h, malformed]

/-! ## Digits in base sixteen -/

theorem hexDigit?_digitChar : ∀ n < 16, hexDigit? (Nat.digitChar n) = some n ∧
    hexDigit? (Nat.digitChar n).toUpper = some n := by
  decide

theorem digitChar_of_toNat : ∀ k < 128, ∀ n ∈ hexDigit? (Char.ofNat k),
    n < 16 ∧ (Char.ofNat k = Nat.digitChar n ∨ Char.ofNat k = (Nat.digitChar n).toUpper) := by
  decide

theorem toNat_lt_of_hexDigit? (h : hexDigit? c = some n) : c.toNat < 128 := by
  unfold hexDigit? at h
  split_ifs at h with h₁ h₂ h₃
  · exact lt_of_le_of_lt (Char.le_def.1 h₁.2) (by decide)
  · exact lt_of_le_of_lt (Char.le_def.1 h₂.2) (by decide)
  · exact lt_of_le_of_lt (Char.le_def.1 h₃.2) (by decide)

theorem hexDigit?_eq_some_iff : hexDigit? c = some n ↔ HexDigit n c := by
  constructor
  · intro h
    have hc := digitChar_of_toNat c.toNat (toNat_lt_of_hexDigit? h) n
    rw [Char.ofNat_toNat] at hc
    exact hc h
  · rintro ⟨hn, rfl | rfl⟩
    · exact (hexDigit?_digitChar n hn).1
    · exact (hexDigit?_digitChar n hn).2

theorem codeUnit_eq_ok_iff : codeUnit s = .ok (n, rest) ↔ CodeUnit n s rest := by
  constructor
  · intro h
    unfold codeUnit at h
    split at h
    · split at h
      · rename_i h₃ h₂ h₁ h₀
        cases h
        rw [hexDigit?_eq_some_iff] at h₃ h₂ h₁ h₀
        have hunit : CodeUnit _ _ rest := CodeUnit.digits h₃ h₂ h₁ h₀
        convert hunit using 1
        ring
      · cases h
    · split at h <;> cases h
  · intro h
    obtain ⟨h₃, h₂, h₁, h₀⟩ := h
    rw [← hexDigit?_eq_some_iff] at h₃ h₂ h₁ h₀
    simp only [codeUnit, h₃, h₂, h₁, h₀]
    congr 2
    ring

theorem CodeUnit.lt (h : CodeUnit n s rest) : n < 0x10000 := by
  obtain ⟨h₃, h₂, h₁, h₀⟩ := h
  have := h₃.1
  have := h₂.1
  have := h₁.1
  have := h₀.1
  omega

/-! ## Escapes -/

theorem shortEscape?_eq_some_iff : shortEscape? c = some d ↔ (c, d) ∈ shortEscapes := by
  constructor
  · intro h
    unfold shortEscape? at h
    split at h <;> cases h <;> simp [shortEscapes]
  · intro h
    simp only [shortEscapes, List.mem_cons, Prod.mk.injEq, List.not_mem_nil, or_false] at h
    rcases h with ⟨rfl, rfl⟩ | ⟨rfl, rfl⟩ | ⟨rfl, rfl⟩ | ⟨rfl, rfl⟩ | ⟨rfl, rfl⟩ | ⟨rfl, rfl⟩ |
      ⟨rfl, rfl⟩ | ⟨rfl, rfl⟩ <;> rfl

theorem toNat_ofNat_of_not_surrogate (h : n < 0x110000) (hs : ¬ (0xD800 ≤ n ∧ n ≤ 0xDFFF)) :
    (Char.ofNat n).toNat = n := by
  rw [Char.toNat_ofNat, if_pos]
  unfold Nat.isValidChar
  omega

theorem toNat_not_surrogate (c : Char) : ¬ (0xD800 ≤ c.toNat ∧ c.toNat ≤ 0xDFFF) := by
  have h : c.toNat.isValidChar := c.valid
  unfold Nat.isValidChar at h
  omega

theorem lowSurrogate_eq_ok_iff {high : Nat} (hhigh : high < 1024) :
    lowSurrogate (0xD800 + high) s = .ok (c, rest) ↔ ∃ t low, s = '\\' :: 'u' :: t ∧ low < 1024 ∧
      CodeUnit (0xDC00 + low) t rest ∧ c.toNat = 0x10000 + high * 1024 + low := by
  constructor
  · intro h
    unfold lowSurrogate at h
    split at h
    · cases h
    · cases h
    · rename_i t
      split at h
      · cases h
      · rename_i unit u hunit
        split_ifs at h with hrange
        · obtain ⟨hc, rfl⟩ := Prod.mk.inj (Except.ok.inj h)
          obtain ⟨low, rfl⟩ := Nat.exists_eq_add_of_le hrange.1
          refine ⟨t, low, rfl, by omega, codeUnit_eq_ok_iff.1 hunit, ?_⟩
          rw [← hc, Nat.add_sub_cancel_left, Nat.add_sub_cancel_left]
          exact toNat_ofNat_of_not_surrogate (by omega) (by omega)
        · cases h
    · cases h
  · rintro ⟨t, low, rfl, hlow, hunit, hc⟩
    simp only [lowSurrogate, codeUnit_eq_ok_iff.2 hunit]
    rw [if_pos (by omega), Nat.add_sub_cancel_left, Nat.add_sub_cancel_left, ← hc,
      Char.ofNat_toNat]

/-- Behind a backslash an escape is read. -/
theorem escaped_eq_ok_iff : escaped s = .ok (c, rest) ↔ Escape c s rest := by
  constructor
  · intro h
    unfold escaped at h
    split at h
    · cases h
    · split at h
      · cases h
      · rename_i unit u hunit
        have hlt := (codeUnit_eq_ok_iff.1 hunit).lt
        split_ifs at h with hhigh hlow
        · obtain ⟨high, rfl⟩ := Nat.exists_eq_add_of_le hhigh.1
          obtain ⟨t, low, rfl, hlow, hunit', hc⟩ := (lowSurrogate_eq_ok_iff (by omega)).1 h
          exact .pair (by omega) hlow (codeUnit_eq_ok_iff.1 hunit) hunit' hc
        · cases h
        · cases h
          refine .unit ?_
          rw [toNat_ofNat_of_not_surrogate (by omega) (by omega)]
          exact codeUnit_eq_ok_iff.1 hunit
    · split at h
      · rename_i hshort
        cases h
        exact .short (shortEscape?_eq_some_iff.1 hshort)
      · cases h
  · intro h
    cases h with
    | @short letter _ _ hmem =>
      have hshort := shortEscape?_eq_some_iff.2 hmem
      have hu : letter ≠ 'u' := by
        rintro rfl
        cases hshort
      unfold escaped
      split
      · simp_all
      · simp_all
      · rename_i heq
        cases heq
        rw [hshort]
    | unit hunit =>
      have hc := toNat_not_surrogate c
      simp only [escaped, codeUnit_eq_ok_iff.2 hunit]
      rw [if_neg (by omega), if_neg (by omega), Char.ofNat_toNat]
    | pair hhigh hlow hunit hunit' hc =>
      simp only [escaped, codeUnit_eq_ok_iff.2 hunit]
      rw [if_pos (by omega), lowSurrogate_eq_ok_iff hhigh]
      exact ⟨_, _, rfl, hlow, hunit', hc⟩

/-! ## Strings -/

/-- The characters of a string are read, up to the quote that ends it. -/
theorem chars_eq_ok_iff {cs : List Char} : chars s = .ok (cs, rest) ↔ Chars cs s rest := by
  constructor
  · intro h
    fun_induction chars s generalizing cs rest with
    | case1 => cases h
    | case2 rest =>
      cases h
      exact .done
    | case3 => cases h
    | case4 s c t he ih =>
      obtain ⟨⟨ds, u⟩, ht, heq⟩ := Success.map_eq_ok_iff.1 h
      cases heq
      exact .escaped (escaped_eq_ok_iff.1 he) (ih ht)
    | case5 => cases h
    | case6 c s hquote hslash hc ih =>
      obtain ⟨⟨ds, u⟩, ht, heq⟩ := Success.map_eq_ok_iff.1 h
      cases heq
      exact .plain hquote hslash (by omega) (ih ht)
  · intro h
    induction h with
    | done => simp [chars]
    | @plain c cs s rest hquote hslash hc _ ih =>
      unfold chars
      split
      · simp_all
      · simp_all
      · simp_all
      · rename_i heq
        cases heq
        rw [if_neg (by omega), ih]
        rfl
    | escaped hesc _ ih =>
      rw [← escaped_eq_ok_iff] at hesc
      rw [chars]
      split
      · rename_i hfault
        cases hesc.symm.trans hfault
      · rename_i hok
        cases hesc.symm.trans hok
        rw [ih]
        rfl

/-- The document that is just a text. -/
def Document.ofText (a : String) : Document :=
  .string a.toList

/-- The text that the document is. -/
def Document.text? : Document → Option String
  | .string s => some (String.ofList s)
  | _ => none

theorem Document.text?_eq_some_iff : v.text? = some a ↔ v = .ofText a := by
  cases v with
  | string s =>
    rw [text?, ofText, Option.some_inj, Document.string.injEq]
    exact ⟨fun h => by rw [← h, String.toList_ofList], fun h => by rw [h, String.ofList_toList]⟩
  | _ => simp [text?, ofText]

@[simp] theorem Document.text?_ofText (a : String) : (ofText a).text? = some a :=
  text?_eq_some_iff.2 rfl

theorem spells_ofText_iff : (Document.ofText a).Spells s rest ↔
    ∃ t, s = '"' :: t ∧ Chars a.toList t rest := by
  constructor
  · intro h
    obtain ⟨⟩ := h
    exact ⟨_, rfl, ‹_›⟩
  · rintro ⟨t, rfl, h⟩
    exact .string h

/-- A string is read, behind blanks. -/
theorem string_eq_ok_iff :
    string s = .ok (a, rest) ↔ ∃ t, Blanks s t ∧ (Document.ofText a).Spells t rest := by
  constructor
  · intro h
    unfold string at h
    split at h
    · rename_i t ht
      obtain ⟨⟨cs, u⟩, hchars, heq⟩ := Success.map_eq_ok_iff.1 h
      cases heq
      refine ⟨_, (skipBlanks_eq_cons_iff.1 ht).1, spells_ofText_iff.2 ⟨t, rfl, ?_⟩⟩
      rw [String.toList_ofList]
      exact chars_eq_ok_iff.1 hchars
    · exact absurd h wrongKind_ne_ok
  · rintro ⟨t, ht, hspells⟩
    obtain ⟨u, rfl, hchars⟩ := spells_ofText_iff.1 hspells
    rw [string, skipBlanks_eq_cons_iff.2 ⟨ht, by decide⟩]
    simp [chars_eq_ok_iff.2 hchars, Except.map]

/-! ## Lists of strings -/

theorem endOfList_eq_ok_iff : endOfList s = .ok rest ↔ Blanks s (']' :: rest) := by
  constructor
  · intro h
    unfold endOfList at h
    split at h
    · cases h
    · rename_i ht
      cases h
      exact (skipBlanks_eq_cons_iff.1 ht).1
    · split at h <;> cases h
    · cases h
  · intro h
    rw [endOfList, skipBlanks_eq_cons_iff.2 ⟨h, by decide⟩]
    rfl

theorem nextElement?_eq_none_iff :
    nextElement? first s = .ok none ↔ ∃ rest, Blanks s (']' :: rest) := by
  constructor
  · intro h
    unfold nextElement? at h
    split at h
    · cases h
    · rename_i ht
      exact ⟨_, (skipBlanks_eq_cons_iff.1 ht).1⟩
    · split at h
      · cases h
      · split at h
        · split at h <;> cases h
        · cases h
  · rintro ⟨rest, h⟩
    rw [nextElement?, skipBlanks_eq_cons_iff.2 ⟨h, by decide⟩]
    rfl

/-- The next item is looked for behind its separator. -/
theorem nextElement?_eq_some_iff : nextElement? first s = .ok (some t) ↔
    Separator first s t ∧ ∃ c u, t = c :: u ∧ isBlank c = false ∧ c ≠ ']' := by
  constructor
  · intro h
    unfold nextElement? at h
    split at h
    · cases h
    · cases h
    · rename_i c u hbracket hs
      obtain ⟨hblanks, hc⟩ := skipBlanks_eq_cons_iff.1 hs
      split_ifs at h with hfirst hcomma
      · cases h
        rw [hfirst]
        exact ⟨.first hblanks, c, u, rfl, hc, hbracket⟩
      · rw [hcomma] at hblanks
        rw [Bool.not_eq_true] at hfirst
        split at h
        · cases h
        · cases h
        · rename_i hnil hbracket'
          cases h
          cases hu : skipBlanks u with
          | nil => exact absurd hu hnil
          | cons d w =>
            obtain ⟨hblanks', hd⟩ := skipBlanks_eq_cons_iff.1 hu
            rw [hfirst]
            refine ⟨.comma hblanks hblanks', d, w, rfl, hd, ?_⟩
            rintro rfl
            exact hbracket' w hu
      · cases h
  · rintro ⟨hsep, c, u, rfl, hc, hbracket⟩
    cases hsep with
    | first h => simp [nextElement?, skipBlanks_eq_cons_iff.2 ⟨h, hc⟩]
    | comma h h' =>
      simp [nextElement?, skipBlanks_eq_cons_iff.2 ⟨h, by decide⟩,
        skipBlanks_eq_cons_iff.2 ⟨h', hc⟩]
      split <;> simp_all

theorem elements_eq_ok_iff : elements first s = .ok (as, rest) ↔
    Items Document.Spells ']' first (as.map Document.ofText) s rest := by
  constructor
  · intro h
    fun_induction elements first s generalizing as rest with
    | case1 => cases h
    | case2 first s hnone =>
      obtain ⟨u, hu, heq⟩ := Success.map_eq_ok_iff.1 h
      cases heq
      exact .done (endOfList_eq_ok_iff.1 hu)
    | case3 => cases h
    | case4 first s t hsome a u ha ih =>
      obtain ⟨⟨bs, w⟩, hbs, heq⟩ := Success.map_eq_ok_iff.1 h
      cases heq
      obtain ⟨hsep, c, v, rfl, hc, -⟩ := nextElement?_eq_some_iff.1 hsome
      obtain ⟨x, hx, hspells⟩ := string_eq_ok_iff.1 ha
      obtain ⟨y, rfl, -⟩ := spells_ofText_iff.1 hspells
      obtain ⟨rfl, rfl⟩ := (Blanks.refl _).unique hx hc (by decide)
      exact .item hsep hspells (ih hbs)
  · intro h
    induction as generalizing first s with
    | nil =>
      obtain ⟨h⟩ := h
      rw [elements]
      split
      · rename_i hfault
        cases (nextElement?_eq_none_iff.2 ⟨_, h⟩).symm.trans hfault
      · rw [endOfList_eq_ok_iff.2 h]
        rfl
      · rename_i hsome
        cases (nextElement?_eq_none_iff.2 ⟨_, h⟩).symm.trans hsome
    | cons a as ih =>
      rw [List.map_cons] at h
      cases h with
      | @item _ _ _ _ t u _ hsep hspells hrest =>
        have hstring : string t = .ok (a, u) := string_eq_ok_iff.2 ⟨t, .refl t, hspells⟩
        obtain ⟨y, rfl, -⟩ := spells_ofText_iff.1 hspells
        have hnext := nextElement?_eq_some_iff.2 ⟨hsep, '"', y, rfl, by decide, by decide⟩
        rw [elements]
        split
        · rename_i hfault
          cases hnext.symm.trans hfault
        · rename_i hnone
          cases hnext.symm.trans hnone
        · rename_i hsome
          cases hnext.symm.trans hsome
          split
          · rename_i hfault
            cases hstring.symm.trans hfault
          · rename_i hok
            cases hstring.symm.trans hok
            rw [ih hrest]
            rfl

/-- A list of strings is read, behind blanks. -/
theorem strings_eq_ok_iff : strings s = .ok (as, rest) ↔
    ∃ t, Blanks s t ∧ (Document.list (as.map Document.ofText)).Spells t rest := by
  constructor
  · intro h
    unfold strings at h
    split at h
    · rename_i t ht
      exact ⟨_, (skipBlanks_eq_cons_iff.1 ht).1, .list (elements_eq_ok_iff.1 h)⟩
    · exact absurd h wrongKind_ne_ok
  · rintro ⟨t, ht, hspells⟩
    cases hspells with
    | list hitems =>
      rw [strings, skipBlanks_eq_cons_iff.2 ⟨ht, by decide⟩]
      exact elements_eq_ok_iff.2 hitems

theorem endOfText_eq_ok_iff : endOfText s = .ok () ↔ Blanks s [] := by
  rw [endOfText, ← skipBlanks_eq_nil_iff]
  by_cases h : skipBlanks s = []
  · simp [h]
  · simp [h, malformed]

end TodoAudit.Json
