import Mathlib
import TodoAudit.Json.Reader

/-!
# The grammar of JSON

Which texts are JSON and what they say, without any reader. A relation such as
`Document.Spells v s rest` says that the text `s` begins with a written form of `v` and goes on with
`rest`; a document has many written forms, because blanks may stand between the tokens and most
characters of a string can also be escaped. `Document.IsWritten v s` says that the whole of `s` is a
written form of `v`, with blanks around it.

A string is a text of characters, so an escaped half of a surrogate pair that stands alone is no
part of any string. A number is kept as it is written. An object is a list of fields: their order is
kept, and a key may come twice.
-/

namespace TodoAudit.Json

open Text

/-- What a JSON text says. -/
inductive Document where
  | null
  | boolean (b : Bool)
  /-- A number, as it is written. -/
  | number (numeral : List Char)
  | string (s : List Char)
  | list (elements : List Document)
  | object (fields : List (List Char × Document))

variable {s t u rest rest' : List Char} {c d : Char} {v : Document}

/-! ## Tokens -/

/-- The text is `rest` behind any number of blanks, tabs and line ends. -/
def Blanks (s rest : List Char) : Prop :=
  ∃ blanks, s = blanks ++ rest ∧ ∀ c ∈ blanks, c ∈ [' ', '\n', '\t', '\r']

/-- The character is a digit in base sixteen, small or capital, that stands for the number. -/
def HexDigit (n : Nat) (c : Char) : Prop :=
  n < 16 ∧ (c = Nat.digitChar n ∨ c = (Nat.digitChar n).toUpper)

/-- The text begins with four digits in base sixteen that stand for the number. -/
inductive CodeUnit : Nat → List Char → List Char → Prop
  | digits {n₃ n₂ n₁ n₀ : Nat} {c₃ c₂ c₁ c₀ : Char} {rest : List Char} : HexDigit n₃ c₃ →
      HexDigit n₂ c₂ → HexDigit n₁ c₁ → HexDigit n₀ c₀ →
      CodeUnit (n₃ * 16 ^ 3 + n₂ * 16 ^ 2 + n₁ * 16 + n₀) (c₃ :: c₂ :: c₁ :: c₀ :: rest) rest

/-- The letters that may stand behind a backslash, and the characters for which they stand. -/
def shortEscapes : List (Char × Char) :=
  [('"', '"'), ('\\', '\\'), ('/', '/'), ('b', '\x08'), ('f', '\x0c'), ('n', '\n'), ('r', '\r'),
    ('t', '\t')]

/-- What may stand behind a backslash for a character: a letter, or its number in UTF-16. -/
inductive Escape : Char → List Char → List Char → Prop
  | short {letter c : Char} {rest : List Char} : (letter, c) ∈ shortEscapes →
      Escape c (letter :: rest) rest
  | unit {c : Char} {s rest : List Char} : CodeUnit c.toNat s rest → Escape c ('u' :: s) rest
  | pair {c : Char} {high low : Nat} {s t rest : List Char} : high < 1024 → low < 1024 →
      CodeUnit (0xD800 + high) s ('\\' :: 'u' :: t) → CodeUnit (0xDC00 + low) t rest →
      c.toNat = 0x10000 + high * 1024 + low → Escape c ('u' :: s) rest

/-- The characters of a string and the quote that ends it. Only quotes, backslashes and control
characters have to be escaped. -/
inductive Chars : List Char → List Char → List Char → Prop
  | done {rest : List Char} : Chars [] ('"' :: rest) rest
  | plain {c : Char} {cs s rest : List Char} : c ≠ '"' → c ≠ '\\' → 0x20 ≤ c.toNat →
      Chars cs s rest → Chars (c :: cs) (c :: s) rest
  | escaped {c : Char} {cs s t rest : List Char} : Escape c s t → Chars cs t rest →
      Chars (c :: cs) ('\\' :: s) rest

/-- The text consists of digits, and there is one. -/
def IsDigits (s : List Char) : Prop :=
  s ≠ [] ∧ ∀ c ∈ s, Decimal.isDigit c = true

/-- The digits before the point. No other digit follows a leading zero. -/
def IsWhole (s : List Char) : Prop :=
  IsDigits s ∧ (s.head? = some '0' → s = ['0'])

/-- The digits behind the point, if there is one. -/
inductive IsFraction : List Char → Prop
  | none : IsFraction []
  | some {digits : List Char} : IsDigits digits → IsFraction ('.' :: digits)

/-- The exponent of ten, if there is one. -/
inductive IsExponent : List Char → Prop
  | none : IsExponent []
  | some {e : Char} {sign digits : List Char} : e = 'e' ∨ e = 'E' →
      sign ∈ [[], ['+'], ['-']] → IsDigits digits → IsExponent (e :: sign ++ digits)

/-- The text is a number. -/
inductive IsNumeral : List Char → Prop
  | parts {sign whole fraction exponent : List Char} : sign = [] ∨ sign = ['-'] → IsWhole whole →
      IsFraction fraction → IsExponent exponent →
      IsNumeral (sign ++ whole ++ fraction ++ exponent)

/-! ## Items in brackets -/

/-- What stands before an item: blanks, and a comma unless it is the first. -/
inductive Separator : Bool → List Char → List Char → Prop
  | first {s rest : List Char} : Blanks s rest → Separator true s rest
  | comma {s t rest : List Char} : Blanks s (',' :: t) → Blanks t rest → Separator false s rest

/-- The items that are left, with commas between them, and the bracket behind them. -/
inductive Items {α : Type} (item : α → List Char → List Char → Prop) (bracket : Char) :
    Bool → List α → List Char → List Char → Prop
  | done {first : Bool} {s rest : List Char} : Blanks s (bracket :: rest) →
      Items item bracket first [] s rest
  | item {first : Bool} {x : α} {xs : List α} {s t u rest : List Char} : Separator first s t →
      item x t u → Items item bracket false xs u rest → Items item bracket first (x :: xs) s rest

/-! ## Documents -/

mutual

/-- The text begins with a written form of the document. -/
inductive Document.Spells : Document → List Char → List Char → Prop
  | null {rest : List Char} : Document.Spells .null ('n' :: 'u' :: 'l' :: 'l' :: rest) rest
  | yes {rest : List Char} :
      Document.Spells (.boolean true) ('t' :: 'r' :: 'u' :: 'e' :: rest) rest
  | no {rest : List Char} :
      Document.Spells (.boolean false) ('f' :: 'a' :: 'l' :: 's' :: 'e' :: rest) rest
  | number {numeral rest : List Char} : IsNumeral numeral →
      Document.Spells (.number numeral) (numeral ++ rest) rest
  | string {cs s rest : List Char} : Chars cs s rest →
      Document.Spells (.string cs) ('"' :: s) rest
  | list {elements : List Document} {s rest : List Char} :
      Items Document.Spells ']' true elements s rest →
      Document.Spells (.list elements) ('[' :: s) rest
  | object {fields : List (List Char × Document)} {s rest : List Char} :
      Items Document.SpellsField '}' true fields s rest →
      Document.Spells (.object fields) ('{' :: s) rest

/-- The text begins with a key, a colon and a written form of the value. -/
inductive Document.SpellsField : List Char × Document → List Char → List Char → Prop
  | field {key s t u w rest : List Char} {v : Document} : Chars key s t → Blanks t (':' :: u) →
      Blanks u w → Document.Spells v w rest → Document.SpellsField (key, v) ('"' :: s) rest

end

/-- The text is a written form of the document and nothing else. -/
def Document.IsWritten (v : Document) (s : List Char) : Prop :=
  ∃ t u, Blanks s t ∧ v.Spells t u ∧ Blanks u []

/-! ## Blanks -/

theorem isBlank_iff : isBlank c = true ↔ c ∈ [' ', '\n', '\t', '\r'] := by
  simp [isBlank, or_assoc]

theorem Blanks.refl (s : List Char) : Blanks s s :=
  ⟨[], rfl, by simp⟩

theorem Blanks.cons (hc : c ∈ [' ', '\n', '\t', '\r']) (h : Blanks s rest) :
    Blanks (c :: s) rest := by
  obtain ⟨blanks, rfl, hblanks⟩ := h
  exact ⟨c :: blanks, rfl, List.forall_mem_cons.2 ⟨hc, hblanks⟩⟩

theorem Blanks.trans (h : Blanks s t) (h' : Blanks t rest) : Blanks s rest := by
  obtain ⟨front, rfl, hfront⟩ := h
  obtain ⟨back, rfl, hback⟩ := h'
  refine ⟨front ++ back, by simp, ?_⟩
  intro c hc
  rcases List.mem_append.1 hc with hc | hc
  · exact hfront c hc
  · exact hback c hc

theorem blanks_skipBlanks (s : List Char) : Blanks s (skipBlanks s) := by
  refine ⟨s.takeWhile isBlank, (List.takeWhile_append_dropWhile).symm, ?_⟩
  intro c hc
  exact isBlank_iff.1 (List.mem_takeWhile_imp hc)

theorem Blanks.skipBlanks_eq (h : Blanks s rest) : skipBlanks s = skipBlanks rest := by
  obtain ⟨blanks, rfl, hblanks⟩ := h
  exact List.dropWhile_append_of_pos fun c hc => isBlank_iff.2 (hblanks c hc)

theorem skipBlanks_cons (hc : isBlank c = false) : skipBlanks (c :: s) = c :: s :=
  List.dropWhile_cons_of_neg (by simp [hc])

theorem isBlank_of_skipBlanks (h : skipBlanks s = c :: rest) : isBlank c = false := by
  have hnot := List.head?_dropWhile_not isBlank s
  rw [← skipBlanks, h] at hnot
  simpa using hnot

theorem skipBlanks_eq_nil_iff : skipBlanks s = [] ↔ Blanks s [] := by
  constructor
  · intro h
    rw [← h]
    exact blanks_skipBlanks s
  · intro h
    rw [h.skipBlanks_eq]
    rfl

/-- What is not blank stays, and nothing else can follow the same blanks. -/
theorem skipBlanks_eq_cons_iff :
    skipBlanks s = c :: rest ↔ Blanks s (c :: rest) ∧ isBlank c = false := by
  constructor
  · intro h
    refine ⟨?_, isBlank_of_skipBlanks h⟩
    rw [← h]
    exact blanks_skipBlanks s
  · rintro ⟨h, hc⟩
    rw [h.skipBlanks_eq, skipBlanks_cons hc]

theorem Blanks.unique (h : Blanks s (c :: rest)) (h' : Blanks s (d :: rest'))
    (hc : isBlank c = false) (hd : isBlank d = false) : c = d ∧ rest = rest' := by
  have heq := (skipBlanks_eq_cons_iff.2 ⟨h, hc⟩).symm.trans (skipBlanks_eq_cons_iff.2 ⟨h', hd⟩)
  simpa using heq

theorem Document.isWritten_object {fields : List (List Char × Document)}
    (h : Items Document.SpellsField '}' true fields s []) :
    (Document.object fields).IsWritten ('{' :: s) :=
  ⟨_, [], .refl _, .object h, .refl _⟩

end TodoAudit.Json
