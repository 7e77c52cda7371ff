/-!
# Refusals

A small reader either eats the beginning of a text or refuses it. A refusal says what was wanted and
where: the text that begins at the place in question.
-/

namespace TodoAudit.Text

/-- What a reader wanted and did not find. -/
inductive Wanted where
  /-- An ASCII letter. -/
  | letter
  /-- A single quote. -/
  | quote
  /-- At least one character of some class. -/
  | run
  /-- A fixed mark. -/
  | mark
  /-- The mark that closes what has been opened. -/
  | closing
  /-- The end of the text. -/
  | nothing
deriving DecidableEq, Repr

/-- Why a reader stopped, and the text that begins where it stopped. -/
structure Refusal where
  wanted : Wanted
  rest : List Char
deriving DecidableEq, Repr

/-- A reader that eats the beginning of a text gives a value and the rest of the text. -/
abbrev Eats (α : Type) :=
  List Char → Except Refusal (α × List Char)

/-- Refuses the text at hand. -/
def refuse {α : Type} (wanted : Wanted) (rest : List Char) : Except Refusal α :=
  .error ⟨wanted, rest⟩

end TodoAudit.Text
