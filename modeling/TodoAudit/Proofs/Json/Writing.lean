import TodoAudit.Json.Value
import TodoAudit.Proofs.Json.Unambiguous
import TodoAudit.Proofs.Text.Numeral

/-!
# Written values

What is written for a value is JSON, at every level of indentation and in front of any text
(`Value.spells_write`). It says what the value is (`Value.document`): numbers are written without
leading zeros, no character that may not stand in a string is left unescaped, and what stands
between the items is nothing but commas and blanks.
-/

namespace TodoAudit.Json

open Text

variable {s t cs rest : List Char} {v : Value}

/-! ## What a value says -/

namespace Value

mutual

/-- What the written form of a value says. -/
def document : Value → Document
  | .null => .null
  | .boolean b => .boolean b
  | .number n => .number (numeral n)
  | .string s => .string s
  | .list elements => .list (elementDocuments elements)
  | .object fields => .object (fieldDocuments fields)

/-- What the elements of a list say. -/
def elementDocuments : List Value → List Document
  | [] => []
  | v :: vs => v.document :: elementDocuments vs

/-- What the fields of an object say. -/
def fieldDocuments : List (List Char × Value) → List (List Char × Document)
  | [] => []
  | (key, v) :: fields => (key, v.document) :: fieldDocuments fields

end

theorem elementDocuments_eq_map (vs : List Value) : elementDocuments vs = vs.map document := by
  induction vs with
  | nil => rfl
  | cons v vs ih => rw [elementDocuments, ih, List.map_cons]

end Value

/-! ## Numbers -/

/-- A number is written without leading zeros. -/
theorem isWhole_digits (n : Nat) : IsWhole (Decimal.digits n) := by
  have hdigits : ∀ c ∈ Decimal.digits n, Decimal.isDigit c = true := fun c =>
    Decimal.isDigit_of_mem_digits
  refine ⟨⟨Nat.toDigits_ne_nil, hdigits⟩, ?_⟩
  intro hhead
  obtain ⟨u, hu⟩ := List.head?_eq_some_iff.1 hhead
  rw [hu] at hdigits
  rw [hu, List.cons.injEq, eq_self, true_and]
  by_contra hne
  -- the digits behind the zero would do, and there are fewer of them
  have hvalue : n = Decimal.value u := by
    rw [← Decimal.value_digits n, hu, Decimal.value_cons]
    simp [Decimal.digitValue]
  have hlt : n < 10 ^ u.length := by
    rw [hvalue]
    exact Decimal.value_lt fun c hc => hdigits c (List.mem_cons_of_mem _ hc)
  have hlength : (Decimal.digits n).length ≤ u.length :=
    (Nat.length_toDigits_le_iff (by decide) (List.length_pos_of_ne_nil hne)).2 hlt
  rw [hu, List.length_cons] at hlength
  omega

theorem isNumeral_digits (n : Nat) : IsNumeral (Decimal.digits n) := by
  have h := IsNumeral.parts (.inl rfl) (isWhole_digits n) .none .none
  simpa using h

theorem isNumeral_numeral (n : Int) : IsNumeral (numeral n) := by
  unfold numeral
  split_ifs
  · have h := IsNumeral.parts (.inr rfl) (isWhole_digits n.natAbs) .none .none
    simpa using h
  · exact isNumeral_digits _

/-! ## Strings -/

theorem hexDigit_mod (n : Nat) : HexDigit (n % 16) (hexDigit n) :=
  ⟨Nat.mod_lt n (by decide), .inl rfl⟩

/-- The four digits behind the letter of an escaped control character are its number. -/
theorem codeUnit_control {n : Nat} (h : n < 0x20) (rest : List Char) :
    CodeUnit n ('0' :: '0' :: hexDigit (n / 16) :: hexDigit n :: rest) rest := by
  have hunit : CodeUnit _ _ rest := CodeUnit.digits (hexDigit_mod 0) (hexDigit_mod 0)
    (hexDigit_mod (n / 16)) (hexDigit_mod n)
  convert hunit using 1
  · omega
  · rfl

/-- Every character can stand in a string as it is written. -/
theorem chars_escape (c : Char) (h : Chars cs s rest) : Chars (c :: cs) (escape c ++ s) rest := by
  unfold escape
  split_ifs with hquote hbackslash hb hf hn hr ht hcontrol
  · exact .escaped (.short (by simp [shortEscapes, hquote])) h
  · exact .escaped (.short (by simp [shortEscapes, hbackslash])) h
  · exact .escaped (.short (by simp [shortEscapes, hb])) h
  · exact .escaped (.short (by simp [shortEscapes, hf])) h
  · exact .escaped (.short (by simp [shortEscapes, hn])) h
  · exact .escaped (.short (by simp [shortEscapes, hr])) h
  · exact .escaped (.short (by simp [shortEscapes, ht])) h
  · exact .escaped (.unit (codeUnit_control hcontrol s)) h
  · exact .plain hquote hbackslash (Nat.not_lt.1 hcontrol) h

theorem chars_flatMap_escape (cs rest : List Char) :
    Chars cs (cs.flatMap escape ++ '"' :: rest) rest := by
  induction cs with
  | nil => exact .done
  | cons c cs ih =>
    rw [List.flatMap_cons, List.append_assoc]
    exact chars_escape c ih

theorem quote_append (cs rest : List Char) :
    quote cs ++ rest = '"' :: (cs.flatMap escape ++ '"' :: rest) := by
  simp [quote]

/-! ## Items in brackets -/

theorem blanks_lineBreak (level : Nat) (s : List Char) : Blanks (lineBreak level ++ s) s := by
  refine ⟨lineBreak level, rfl, ?_⟩
  intro c hc
  rw [lineBreak, List.mem_cons] at hc
  rcases hc with rfl | hc
  · decide
  · rw [List.eq_of_mem_replicate hc]
    decide

section

variable {α : Type} {item : α → List Char → List Char → Prop} {bracket : Char} {first : Bool}
  {xs : List α} {words : List (List Char)} {level : Nat}

/-- The words are written forms of the items, whatever follows them. -/
def AreWritten (item : α → List Char → List Char → Prop) (xs : List α)
    (words : List (List Char)) : Prop :=
  List.Forall₂ (fun x word => ∀ rest, item x (word ++ rest) rest) xs words

/-- Words on lines of their own, with commas between them, are items up to the bracket. -/
theorem items_intercalate (h : AreWritten item xs words) (hne : words ≠ [])
    (hs : Separator first s (List.intercalate (',' :: lineBreak level) words ++ t))
    (ht : Blanks t (bracket :: rest)) : Items item bracket first xs s rest := by
  induction h generalizing first s with
  | nil => exact absurd rfl hne
  | @cons x word xs words hx hxs ih =>
    cases words with
    | nil =>
      cases hxs
      rw [List.intercalate_singleton] at hs
      exact .item hs (hx t) (.done ht)
    | cons word' words =>
      rw [List.intercalate_cons_cons, List.append_assoc, List.append_assoc] at hs
      exact .item hs (hx _) (ih (List.cons_ne_nil _ _) (.comma (.refl _) (blanks_lineBreak _ _)))

theorem items_enclose (h : AreWritten item xs words) (left bracket : Char) (level : Nat)
    (rest : List Char) : ∃ s, enclose left bracket level words ++ rest = left :: s ∧
      Items item bracket true xs s rest := by
  unfold enclose
  split_ifs with hempty
  · rw [List.isEmpty_iff] at hempty
    subst hempty
    cases h
    exact ⟨bracket :: rest, rfl, .done (.refl _)⟩
  · refine ⟨lineBreak (level + 1) ++ (List.intercalate (',' :: lineBreak (level + 1)) words ++
      (lineBreak level ++ bracket :: rest)), by simp, ?_⟩
    exact items_intercalate h (by simpa using hempty) (.first (blanks_lineBreak _ _))
      (blanks_lineBreak _ _)

end

/-! ## Values -/

namespace Value

mutual

/-- What is written for a value says what the value is, whatever follows it. -/
theorem spells_write (v : Value) (level : Nat) (rest : List Char) :
    v.document.Spells (v.write level ++ rest) rest := by
  match v with
  | .null => exact .null
  | .boolean true => exact .yes
  | .boolean false => exact .no
  | .number n => exact .number (isNumeral_numeral n)
  | .string cs =>
    rw [write, quote_append]
    exact .string (chars_flatMap_escape cs rest)
  | .list elements =>
    obtain ⟨s, hs, hitems⟩ := items_enclose (areWritten_writeElements elements (level + 1))
      '[' ']' level rest
    rw [write, hs]
    exact .list hitems
  | .object fields =>
    obtain ⟨s, hs, hitems⟩ := items_enclose (areWritten_writeFields fields (level + 1))
      '{' '}' level rest
    rw [write, hs]
    exact .object hitems

theorem areWritten_writeElements (vs : List Value) (level : Nat) :
    AreWritten Document.Spells (elementDocuments vs) (writeElements level vs) := by
  match vs with
  | [] => exact .nil
  | v :: vs => exact .cons (spells_write v level) (areWritten_writeElements vs level)

theorem areWritten_writeFields (fields : List (List Char × Value)) (level : Nat) :
    AreWritten Document.SpellsField (fieldDocuments fields) (writeFields level fields) := by
  match fields with
  | [] => exact .nil
  | (key, v) :: fields =>
    refine .cons ?_ (areWritten_writeFields fields level)
    intro rest
    rw [List.append_assoc, List.append_assoc, quote_append]
    exact .field (chars_flatMap_escape _ _) (.refl _) (.cons (by decide) (.refl _))
      (spells_write v level rest)

end

/-- A value is written as the document that it says, also with blanks behind it. -/
theorem isWritten_write (v : Value) (level : Nat) (h : Blanks s []) :
    v.document.IsWritten (v.write level ++ s) :=
  ⟨_, s, .refl _, v.spells_write level s, h⟩

end Value

end TodoAudit.Json
