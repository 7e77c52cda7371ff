import TodoAudit.Text.Graphic

/-!
# Texts in double quotes

In a message about a text that could not be read, the text stands in double quotes, with the quote,
the backslash and whatever cannot be shown written as an escape.
-/

namespace TodoAudit.Text.Quoted

/-- The digits of a number in base sixteen, in small letters. -/
def hex (n : Nat) : List Char :=
  Nat.toDigits 16 n

/-- One character between the quotes. -/
def escape (c : Char) : List Char :=
  match c with
  | '"' => ['\\', '"']
  | '\\' => ['\\', '\\']
  | '\n' => ['\\', 'n']
  | '\r' => ['\\', 'r']
  | '\t' => ['\\', 't']
  | '\x00' => ['\\', '0']
  | c => if isGraphic c then [c] else ['\\', 'u', '\x7b'] ++ hex c.toNat ++ ['\x7d']

/-- The text in quotes. -/
def encode (s : List Char) : List Char :=
  '"' :: s.flatMap escape ++ ['"']

end TodoAudit.Text.Quoted
