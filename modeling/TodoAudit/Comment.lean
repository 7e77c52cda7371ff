import TodoAudit.Text.Refusal
import TodoAudit.Text.Basic

/-!
# Comments

A block comment runs from `/*` to the first `*/` behind it, a line comment from `//` to the end of
its line. Where both could begin, the block comment is tried first. A text is scanned from left to
right without regard to any other structure of the language, so a mark inside a string literal
counts. Comments never overlap, and a `/*` that is never closed hides nothing.
-/

namespace TodoAudit

open Text

/-- A comment with its delimiters, and the byte offset where it begins. -/
structure Comment where
  offset : Nat
  text : List Char
deriving DecidableEq, Repr

namespace Comment

variable {s text rest : List Char}

/-! ## One comment at the beginning of a text -/

/-- Eats a block comment, delimiters included. -/
def block : Eats (List Char) := fun s =>
  match strip? ['/', '*'] s with
  | none => refuse .mark s
  | some inside =>
    match cutAt? ['*', '/'] inside with
    | none => refuse .closing inside
    | some (body, rest) => .ok (['/', '*'] ++ body ++ ['*', '/'], rest)

/-- Eats a line comment without the line break that ends it. -/
def line : Eats (List Char) := fun s =>
  match strip? ['/', '/'] s with
  | none => refuse .mark s
  | some inside => .ok (['/', '/'] ++ inside.takeWhile (· ≠ '\n'), inside.dropWhile (· ≠ '\n'))

/-- Eats a comment of either kind. If there is none, it was a line comment that was wanted last. -/
def any : Eats (List Char) := fun s =>
  match block s with
  | .ok eaten => .ok eaten
  | .error _ => line s

theorem block_eq_ok_iff : block s = .ok (text, rest) ↔ ∃ inside body, s = ['/', '*'] ++ inside ∧
    cutAt? ['*', '/'] inside = some (body, rest) ∧ text = ['/', '*'] ++ body ++ ['*', '/'] := by
  unfold block
  constructor
  · intro h
    split at h
    · cases h
    · rename_i inside hs
      split at h
      · cases h
      · rename_i body tail hcut
        cases h
        exact ⟨inside, body, strip?_eq_some_iff.1 hs, hcut, rfl⟩
  · rintro ⟨inside, body, rfl, hcut, rfl⟩
    rw [strip?_eq_some_iff.2 rfl]
    simp only [hcut]

/-- No block comment begins where none is opened or what is opened is not closed. -/
theorem block_eq_error_iff : (∃ r, block s = .error r) ↔
    ∀ inside, s = ['/', '*'] ++ inside → cutAt? ['*', '/'] inside = none := by
  cases hblock : block s with
  | ok eaten =>
    obtain ⟨inside, body, hs, hcut, -⟩ := block_eq_ok_iff.1 hblock
    constructor
    · rintro ⟨r, ⟨⟩⟩
    · intro h
      cases hcut.symm.trans (h inside hs)
  | error r =>
    refine iff_of_true ⟨r, rfl⟩ ?_
    intro inside hs
    cases hcut : cutAt? ['*', '/'] inside with
    | none => rfl
    | some parts =>
      cases hblock.symm.trans (block_eq_ok_iff.2 ⟨inside, parts.1, hs, hcut, rfl⟩)

theorem line_eq_ok_iff : line s = .ok (text, rest) ↔ ∃ inside, s = ['/', '/'] ++ inside ∧
    text = ['/', '/'] ++ inside.takeWhile (· ≠ '\n') ∧ rest = inside.dropWhile (· ≠ '\n') := by
  unfold line
  constructor
  · intro h
    split at h
    · cases h
    · rename_i inside hs
      cases h
      exact ⟨inside, strip?_eq_some_iff.1 hs, rfl, rfl⟩
  · rintro ⟨inside, rfl, rfl, rfl⟩
    rw [strip?_eq_some_iff.2 rfl]

theorem line_eq_error_iff : (∃ r, line s = .error r) ↔ ∀ inside, s ≠ ['/', '/'] ++ inside := by
  cases hline : line s with
  | ok eaten =>
    obtain ⟨inside, hs, -⟩ := line_eq_ok_iff.1 hline
    constructor
    · rintro ⟨r, ⟨⟩⟩
    · intro h
      exact absurd hs (h inside)
  | error r =>
    refine iff_of_true ⟨r, rfl⟩ ?_
    intro inside hs
    cases hline.symm.trans (line_eq_ok_iff.2 ⟨inside, hs, rfl, rfl⟩)

/-- A comment is a block comment, or a line comment where no block comment begins. -/
theorem any_eq_ok_iff : any s = .ok (text, rest) ↔
    block s = .ok (text, rest) ∨ (∃ r, block s = .error r) ∧ line s = .ok (text, rest) := by
  unfold any
  cases block s <;> simp

theorem any_eq_error_iff :
    (∃ r, any s = .error r) ↔ (∃ r, block s = .error r) ∧ ∃ r, line s = .error r := by
  unfold any
  cases block s <;> simp

theorem eq_append_of_block (h : block s = .ok (text, rest)) : s = text ++ rest ∧ text ≠ [] := by
  obtain ⟨inside, body, rfl, hcut, rfl⟩ := block_eq_ok_iff.1 h
  simp [eq_append_of_cutAt?_eq_some hcut]

theorem eq_append_of_line (h : line s = .ok (text, rest)) : s = text ++ rest ∧ text ≠ [] := by
  obtain ⟨inside, rfl, rfl, rfl⟩ := line_eq_ok_iff.1 h
  simp

/-- A comment is a nonempty beginning of the text, and the rest is what follows it. -/
theorem eq_append_of_any (h : any s = .ok (text, rest)) : s = text ++ rest ∧ text ≠ [] := by
  rcases any_eq_ok_iff.1 h with hblock | ⟨-, hline⟩
  · exact eq_append_of_block hblock
  · exact eq_append_of_line hline

theorem length_lt_of_any (h : any s = .ok (text, rest)) : rest.length < s.length := by
  obtain ⟨rfl, hne⟩ := eq_append_of_any h
  have := List.length_pos_iff.2 hne
  simp
  omega

/-! ## All comments of a text -/

/-- The comments of a text that itself begins at `offset`. -/
def scanFrom (offset : Nat) (s : List Char) : List Comment :=
  match _h : any s with
  | .ok (text, rest) => ⟨offset, text⟩ :: scanFrom (offset + byteSize text) rest
  | .error _ =>
    match s with
    | [] => []
    | c :: s => scanFrom (offset + c.utf8Size) s
termination_by s.length
decreasing_by
  · exact length_lt_of_any _h
  · simp

/-- Every comment of a text, from left to right. -/
def scan (s : List Char) : List Comment :=
  scanFrom 0 s

/-- The word that makes a comment a todo. -/
def tag : List Char := ['T', 'O', 'D', 'O']

/-- Whether the comment holds the tag, in capitals. -/
def isTodo (c : Comment) : Bool :=
  occurs tag c.text

/-- The todo comments of a text, from left to right. -/
def todos (s : List Char) : List Comment :=
  (scan s).filter isTodo

end Comment

end TodoAudit
