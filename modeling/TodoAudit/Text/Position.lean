import TodoAudit.Text.Basic

/-!
# Lines and columns

A position names a place in a text by its line and its column. Both count from one, lines end at
the character `\n`, and a column counts characters while an offset counts bytes.
-/

namespace TodoAudit.Text

/-- A place in a text, as a reader of the text would name it. -/
structure Position where
  line : Nat
  column : Nat
deriving DecidableEq, Repr

/-- The characters before a byte offset. A character that the offset cuts counts as before it. -/
def upTo : List Char → (offset : Nat) → List Char
  | _, 0 => []
  | [], _ => []
  | c :: s, offset + 1 => c :: upTo s (offset + 1 - c.utf8Size)

/-- The position just behind a text. -/
def Position.after (before : List Char) : Position where
  line := before.count '\n' + 1
  column := (before.reverse.takeWhile (· ≠ '\n')).length + 1

/-- The position of a byte offset. -/
def Position.ofOffset (text : List Char) (offset : Nat) : Position :=
  .after (upTo text offset)

/-- An offset on a character boundary separates exactly the text before it. -/
theorem upTo_byteSize (before rest : List Char) :
    upTo (before ++ rest) (byteSize before) = before := by
  induction before with
  | nil => cases rest <;> rfl
  | cons c s ih =>
    have hc := c.utf8Size_pos
    obtain ⟨n, hn⟩ : ∃ n, byteSize (c :: s) = n + 1 := ⟨byteSize (c :: s) - 1, by simp; omega⟩
    have hs : n + 1 - c.utf8Size = byteSize s := by simp at hn; omega
    simp only [List.cons_append, hn, upTo, hs, ih]

end TodoAudit.Text
