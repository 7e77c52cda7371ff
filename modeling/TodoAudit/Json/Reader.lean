import TodoAudit.Json.Number
import TodoAudit.Text.Basic

/-!
# Reading JSON

Each reader takes a text at the place where something is expected and gives what it read and the
rest of the text, or the first fault. A value of the wrong kind is refused as soon as its kind is
known, which for a scalar is when all of it has been read.
-/

namespace TodoAudit.Json

open Text

variable {s t rest : List Char} {c : Char}

/-- A reader of a value at the beginning of a text. -/
abbrev Reads (α : Type) :=
  List Char → Except Fault (α × List Char)

/-- Refuses a text that is no JSON. -/
def malformed {α : Type} (fault : Malformed) : Except Fault α :=
  .error (.malformed fault)

/-- Refuses a text that ends too early. -/
def unfinished {α : Type} (inside : Unfinished) : Except Fault α :=
  .error (.unfinished inside)

/-- Refuses a value of the wrong content. -/
def mismatch {α : Type} (fault : Mismatch) : Except Fault α :=
  .error (.mismatch fault)

/-! ## Blanks and words -/

/-- The four characters that may stand between the tokens. -/
def isBlank (c : Char) : Bool :=
  c == ' ' || c == '\n' || c == '\t' || c == '\r'

/-- The text without blanks at its beginning. -/
def skipBlanks (s : List Char) : List Char :=
  s.dropWhile isBlank

/-- Eats the letters of a word. -/
def word : (letters s : List Char) → Except Fault (List Char)
  | [], s => .ok s
  | _ :: _, [] => unfinished .value
  | a :: letters, c :: s => if a = c then word letters s else malformed .expectedWord

/-! ## Strings -/

/-- The number that a digit in base sixteen stands for. -/
def hexDigit? (c : Char) : Option Nat :=
  if '0' ≤ c ∧ c ≤ '9' then some (c.toNat - '0'.toNat)
  else if 'a' ≤ c ∧ c ≤ 'f' then some (c.toNat - 'a'.toNat + 10)
  else if 'A' ≤ c ∧ c ≤ 'F' then some (c.toNat - 'A'.toNat + 10)
  else none

/-- Eats four digits in base sixteen. Only a text of fewer than four bytes counts as unfinished. -/
def codeUnit (s : List Char) : Except Fault (Nat × List Char) :=
  match s with
  | a :: b :: c :: d :: rest =>
    match hexDigit? a, hexDigit? b, hexDigit? c, hexDigit? d with
    | some a, some b, some c, some d => .ok (((a * 16 + b) * 16 + c) * 16 + d, rest)
    | _, _, _, _ => malformed .invalidEscape
  | _ => if byteSize s < 4 then unfinished .string else malformed .invalidEscape

/-- Eats the second half of a surrogate pair, behind the code unit `high`. -/
def lowSurrogate (high : Nat) (s : List Char) : Except Fault (Char × List Char) :=
  match s with
  | [] | ['\\'] => unfinished .string
  | '\\' :: 'u' :: s =>
    match codeUnit s with
    | .error fault => .error fault
    | .ok (low, rest) =>
      if 0xDC00 ≤ low ∧ low ≤ 0xDFFF then
        .ok (Char.ofNat (0x10000 + (high - 0xD800) * 1024 + (low - 0xDC00)), rest)
      else malformed .loneSurrogate
  | _ => malformed .unpairedSurrogate

/-- The character for which a letter behind a backslash stands. -/
def shortEscape? : Char → Option Char
  | '"' => some '"'
  | '\\' => some '\\'
  | '/' => some '/'
  | 'b' => some '\x08'
  | 'f' => some '\x0c'
  | 'n' => some '\n'
  | 'r' => some '\r'
  | 't' => some '\t'
  | _ => none

/-- Eats what follows a backslash. -/
def escaped (s : List Char) : Except Fault (Char × List Char) :=
  match s with
  | [] => unfinished .string
  | 'u' :: s =>
    match codeUnit s with
    | .error fault => .error fault
    | .ok (unit, rest) =>
      if 0xD800 ≤ unit ∧ unit ≤ 0xDBFF then lowSurrogate unit rest
      else if 0xDC00 ≤ unit ∧ unit ≤ 0xDFFF then malformed .loneSurrogate
      else .ok (Char.ofNat unit, rest)
  | c :: s =>
    match shortEscape? c with
    | some d => .ok (d, s)
    | none => malformed .invalidEscape

theorem length_lt_of_codeUnit {n : Nat} (h : codeUnit s = .ok (n, rest)) :
    rest.length < s.length := by
  unfold codeUnit at h
  split at h
  · split at h
    · cases h
      simp only [List.length_cons]
      omega
    · cases h
  · split at h <;> cases h

theorem length_lt_of_lowSurrogate {n : Nat} (h : lowSurrogate n s = .ok (c, rest)) :
    rest.length < s.length := by
  unfold lowSurrogate at h
  split at h
  · cases h
  · cases h
  · split at h
    · cases h
    · rename_i hu
      have := length_lt_of_codeUnit hu
      split at h
      · obtain ⟨-, rfl⟩ := Prod.mk.inj (Except.ok.inj h)
        simp only [List.length_cons]
        omega
      · cases h
  · cases h

theorem length_lt_of_escaped (h : escaped s = .ok (c, rest)) : rest.length < s.length := by
  unfold escaped at h
  split at h
  · cases h
  · split at h
    · cases h
    · rename_i hu
      have := length_lt_of_codeUnit hu
      split at h
      · have := length_lt_of_lowSurrogate h
        simp only [List.length_cons]
        omega
      · split at h
        · cases h
        · obtain ⟨-, rfl⟩ := Prod.mk.inj (Except.ok.inj h)
          simp only [List.length_cons]
          omega
  · split at h
    · obtain ⟨-, rfl⟩ := Prod.mk.inj (Except.ok.inj h)
      simp
    · cases h

/-- Eats the characters of a string and the quote that ends it. -/
def chars (s : List Char) : Except Fault (List Char × List Char) :=
  match s with
  | [] => unfinished .string
  | '"' :: rest => .ok ([], rest)
  | '\\' :: s =>
    match _h : escaped s with
    | .error fault => .error fault
    | .ok (c, s) => (chars s).map fun (cs, rest) => (c :: cs, rest)
  | c :: s =>
    if c.toNat < 0x20 then malformed .controlCharacter
    else (chars s).map fun (cs, rest) => (c :: cs, rest)
termination_by s.length
decreasing_by
  · have := length_lt_of_escaped _h
    simp only [List.length_cons]
    omega
  · simp

/-! ## Values -/

/-- The kind of the value at the beginning of a text. -/
def kindOf (s : List Char) : Except Fault Kind :=
  match s with
  | [] => unfinished .value
  | 'n' :: s => (word ['u', 'l', 'l'] s).map fun _ => .null
  | 't' :: s => (word ['r', 'u', 'e'] s).map fun _ => .boolean true
  | 'f' :: s => (word ['a', 'l', 's', 'e'] s).map fun _ => .boolean false
  | '"' :: s => (chars s).map fun (cs, _) => .string cs
  | '[' :: _ => .ok .sequence
  | '{' :: _ => .ok .map
  | c :: s =>
    if c = '-' ∨ Decimal.isDigit c then (Number.read (c :: s)).map .number
    else malformed .expectedValue

/-- Refuses the value at the beginning of a text, where something else was expected. -/
def wrongKind {α : Type} (expected : String) (s : List Char) : Except Fault α :=
  match kindOf s with
  | .error fault => .error fault
  | .ok kind => mismatch (.invalidType kind expected)

/-- Eats a string. -/
def string : Reads String := fun s =>
  match skipBlanks s with
  | '"' :: s => (chars s).map fun (cs, rest) => (String.ofList cs, rest)
  | s => wrongKind "a string" s

theorem length_lt_of_chars {cs : List Char} (h : chars s = .ok (cs, rest)) :
    rest.length < s.length := by
  fun_induction chars s generalizing cs rest with
  | case1 => cases h
  | case2 => cases h; simp
  | case3 _ _ hf => cases h
  | case4 s c t he ih =>
    have hlt := length_lt_of_escaped he
    cases ht : chars t with
    | error fault => rw [ht] at h; cases h
    | ok eaten =>
      rw [ht] at h
      cases h
      have := ih ht
      simp only [List.length_cons]
      omega
  | case5 => cases h
  | case6 c s _ _ _ ih =>
    cases ht : chars s with
    | error fault => rw [ht] at h; cases h
    | ok eaten =>
      rw [ht] at h
      cases h
      have := ih ht
      simp only [List.length_cons]
      omega

theorem length_skipBlanks_le (s : List Char) : (skipBlanks s).length ≤ s.length :=
  (List.dropWhile_suffix isBlank).length_le

theorem wrongKind_ne_ok {α : Type} {expected : String} {a : α} :
    wrongKind expected s ≠ .ok a := by
  unfold wrongKind
  intro h
  split at h <;> cases h

theorem length_lt_of_string {a : String} (h : string s = .ok (a, rest)) :
    rest.length < s.length := by
  have hs := length_skipBlanks_le s
  unfold string at h
  split at h
  · rename_i t ht
    cases hc : chars t with
    | error fault => rw [hc] at h; cases h
    | ok eaten =>
      rw [hc] at h
      cases h
      have := length_lt_of_chars hc
      rw [ht, List.length_cons] at hs
      omega
  · exact absurd h wrongKind_ne_ok

/-! ## Lists of strings -/

/-- Where the next element of a list begins, or `none` at the bracket that ends the list. -/
def nextElement? (first : Bool) (s : List Char) : Except Fault (Option (List Char)) :=
  match skipBlanks s with
  | [] => unfinished .list
  | ']' :: _ => .ok none
  | c :: s =>
    if first then .ok (some (c :: s))
    else if c = ',' then
      match skipBlanks s with
      | [] => unfinished .value
      | ']' :: _ => malformed .trailingComma
      | s => .ok (some s)
    else malformed .expectedListCommaOrEnd

theorem length_le_of_nextElement? {first : Bool} (h : nextElement? first s = .ok (some t)) :
    t.length ≤ s.length := by
  have hs := length_skipBlanks_le s
  unfold nextElement? at h
  split at h
  · cases h
  · cases h
  · rename_i c u _ hu
    rw [hu, List.length_cons] at hs
    split at h
    · cases h
      simpa using hs
    · split at h
      · have hv := length_skipBlanks_le u
        split at h
        · cases h
        · cases h
        · cases h
          omega
      · cases h

/-- Eats the end of a list that can hold no further element. -/
def endOfList (s : List Char) : Except Fault (List Char) :=
  match skipBlanks s with
  | [] => unfinished .list
  | ']' :: rest => .ok rest
  | ',' :: s =>
    match skipBlanks s with
    | ']' :: _ => malformed .trailingComma
    | _ => malformed .trailingCharacters
  | _ => malformed .trailingCharacters

theorem length_lt_of_endOfList (h : endOfList s = .ok rest) : rest.length < s.length := by
  have hs := length_skipBlanks_le s
  unfold endOfList at h
  split at h
  · cases h
  · rename_i ht
    cases h
    rw [ht, List.length_cons] at hs
    omega
  · split at h <;> cases h
  · cases h

/-- Eats the strings of a list up to its end. -/
def elements (first : Bool) (s : List Char) : Except Fault (List String × List Char) :=
  match _h : nextElement? first s with
  | .error fault => .error fault
  | .ok none => (endOfList s).map fun rest => ([], rest)
  | .ok (some t) =>
    match _ht : string t with
    | .error fault => .error fault
    | .ok (a, rest) => (elements false rest).map fun (as, rest) => (a :: as, rest)
termination_by s.length
decreasing_by
  have := length_le_of_nextElement? _h
  have := length_lt_of_string _ht
  omega

/-- Eats a list of strings. -/
def strings : Reads (List String) := fun s =>
  match skipBlanks s with
  | '[' :: s => elements true s
  | s => wrongKind "a sequence" s

theorem length_lt_of_elements {first : Bool} {as : List String}
    (h : elements first s = .ok (as, rest)) : rest.length < s.length := by
  fun_induction elements first s generalizing as rest with
  | case1 => cases h
  | case2 first s hn =>
    cases he : endOfList s with
    | error fault => rw [he] at h; cases h
    | ok u =>
      rw [he] at h
      cases h
      exact length_lt_of_endOfList he
  | case3 => cases h
  | case4 first s t hn a u hs ih =>
    have h₁ := length_le_of_nextElement? hn
    have h₂ := length_lt_of_string hs
    cases he : elements false u with
    | error fault => rw [he] at h; cases h
    | ok eaten =>
      rw [he] at h
      cases h
      have := ih he
      omega

theorem length_lt_of_strings {as : List String} (h : strings s = .ok (as, rest)) :
    rest.length < s.length := by
  have hs := length_skipBlanks_le s
  unfold strings at h
  split at h
  · rename_i t ht
    have := length_lt_of_elements h
    rw [ht, List.length_cons] at hs
    omega
  · exact absurd h wrongKind_ne_ok

/-- Requires that nothing follows but blanks. -/
def endOfText (s : List Char) : Except Fault Unit :=
  if (skipBlanks s).isEmpty then .ok () else malformed .trailingCharacters

end TodoAudit.Json
