import TodoAudit.Text.Basic
import TodoAudit.Text.Refusal

/-!
# Mentions

A mention is a symbol with a name of word characters right behind it. The first mention in a comment
names the assignee; an occurrence of the symbol without a name behind it is passed over, and
occurrences may overlap.
-/

namespace TodoAudit

open Text

/-- Eats a mention and gives the name without the symbol. -/
def mention (symbol : List Char) : Eats (List Char) := fun s =>
  match strip? symbol s with
  | none => refuse .mark s
  | some rest =>
    if (rest.takeWhile isWord).isEmpty then refuse .run rest
    else .ok (rest.takeWhile isWord, rest.dropWhile isWord)

/-- The name in the first mention of the comment. The empty symbol mentions no one. -/
def assignee? (symbol : List Char) : (comment : List Char) → Option (List Char)
  | [] => none
  | c :: s =>
    if symbol = [] then none
    else
      match mention symbol (c :: s) with
      | .ok (name, _) => some name
      | .error _ => assignee? symbol s

end TodoAudit
