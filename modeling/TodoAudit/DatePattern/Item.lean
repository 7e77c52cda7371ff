import TodoAudit.Text.Refusal

/-!
# Date patterns

A pattern describes a written date. It is made of fields, which are runs of one ASCII letter, of
text in single quotes, and of any other characters, which stand for themselves. Two quotes with
nothing between them stand for one quote.
-/

namespace TodoAudit.DatePattern

open Text

/-- One piece of a date pattern. -/
inductive Item where
  /-- A letter repeated `count` times. -/
  | field (letter : Char) (count : Nat)
  /-- Text that stands for itself. -/
  | literal (text : List Char)
  /-- A single quote that stands for itself. -/
  | quote
deriving DecidableEq, Repr

namespace Item

variable {i : Item} {s rest : List Char}

/-- The characters that belong to no field and to no quoted text. -/
def isPlain (c : Char) : Bool :=
  !c.isAlpha && c != '\''

/-- Eats a run of one letter. -/
def letters : Eats Item
  | [] => refuse .letter []
  | c :: s =>
    if c.isAlpha then
      .ok (.field c (s.takeWhile (· == c)).length.succ, s.dropWhile (· == c))
    else refuse .letter (c :: s)

/-- Eats text in quotes. -/
def quoted : Eats Item := fun s =>
  match s with
  | '\'' :: inside =>
    match inside.dropWhile (· ≠ '\'') with
    | [] => refuse .quote []
    | _ :: rest =>
      let text := inside.takeWhile (· ≠ '\'')
      .ok (if text.isEmpty then .quote else .literal text, rest)
  | s => refuse .quote s

/-- Eats what stands between fields without quotes. -/
def plain : Eats Item := fun s =>
  if (s.takeWhile isPlain).isEmpty then refuse .run s
  else .ok (.literal (s.takeWhile isPlain), s.dropWhile isPlain)

/-- Eats one item of whatever kind. -/
def any : Eats Item := fun s =>
  match letters s with
  | .ok eaten => .ok eaten
  | .error _ =>
    match quoted s with
    | .ok eaten => .ok eaten
    | .error _ => plain s

theorem length_dropWhile_le {α : Type} (p : α → Bool) (l : List α) :
    (l.dropWhile p).length ≤ l.length :=
  (List.dropWhile_suffix p).length_le

theorem length_lt_of_letters (h : letters s = .ok (i, rest)) : rest.length < s.length := by
  cases s with
  | nil => cases h
  | cons c s =>
    have := length_dropWhile_le (· == c) s
    simp only [letters] at h
    split at h
    · cases h
      simp only [List.length_cons]
      omega
    · cases h

theorem length_lt_of_quoted (h : quoted s = .ok (i, rest)) : rest.length < s.length := by
  unfold quoted at h
  split at h
  · rename_i inside
    have := length_dropWhile_le (· ≠ '\'') inside
    split at h
    · cases h
    · rename_i c tail hd
      cases h
      rw [hd] at this
      simp only [List.length_cons] at this ⊢
      omega
  · cases h

theorem length_lt_of_plain (h : plain s = .ok (i, rest)) : rest.length < s.length := by
  unfold plain at h
  split at h
  · cases h
  · rename_i hne
    cases h
    have hs := congrArg List.length (List.takeWhile_append_dropWhile (p := isPlain) (l := s))
    rw [List.length_append] at hs
    have := List.length_pos_iff.2 (by simpa using hne : s.takeWhile isPlain ≠ [])
    omega

theorem length_lt_of_any (h : any s = .ok (i, rest)) : rest.length < s.length := by
  unfold any at h
  split at h
  · rename_i eaten he
    cases h
    exact length_lt_of_letters he
  · split at h
    · rename_i eaten he
      cases h
      exact length_lt_of_quoted he
    · exact length_lt_of_plain h

/-- Eats items as long as there are any. -/
def many (s : List Char) : List Item × List Char :=
  match _h : any s with
  | .ok (item, rest) => ((many rest).map (item :: ·) id)
  | .error _ => ([], s)
termination_by s.length
decreasing_by exact length_lt_of_any _h

/-- The items of a whole pattern. Refuses a pattern in which a quote is never closed. -/
def all (s : List Char) : Except Refusal (List Item) :=
  match many s with
  | (items, []) => .ok items
  | (_, rest) => refuse .nothing rest

end Item

end TodoAudit.DatePattern
