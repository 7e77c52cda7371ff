import TodoAudit.Text.Decimal

/-!
# JSON documents

A document and its written form. Every element of a list and every field of an object stands on a
line of its own, indented by two blanks for each level; empty lists and objects stand on one line.
In a string only the quote, the backslash and control characters are escaped.
-/

namespace TodoAudit.Json

open Text

/-- A JSON document. The fields of an object keep their order. -/
inductive Value where
  | null
  | boolean (b : Bool)
  | number (n : Int)
  | string (s : List Char)
  | list (elements : List Value)
  | object (fields : List (List Char × Value))

/-- A digit in base sixteen, in small letters. -/
def hexDigit (n : Nat) : Char :=
  Nat.digitChar (n % 16)

/-- One character of a string, as it is written between the quotes. -/
def escape (c : Char) : List Char :=
  if c = '"' then ['\\', '"']
  else if c = '\\' then ['\\', '\\']
  else if c = '\x08' then ['\\', 'b']
  else if c = '\x0c' then ['\\', 'f']
  else if c = '\n' then ['\\', 'n']
  else if c = '\r' then ['\\', 'r']
  else if c = '\t' then ['\\', 't']
  else if c.toNat < 0x20 then ['\\', 'u', '0', '0', hexDigit (c.toNat / 16), hexDigit c.toNat]
  else [c]

/-- A string in its quotes. -/
def quote (s : List Char) : List Char :=
  '"' :: s.flatMap escape ++ ['"']

/-- A whole number. -/
def numeral (n : Int) : List Char :=
  if n < 0 then '-' :: Decimal.digits n.natAbs else Decimal.digits n.natAbs

/-- A line break, and the indentation of the level. -/
def lineBreak (level : Nat) : List Char :=
  '\n' :: List.replicate (2 * level) ' '

/-- Items in brackets, one a line. -/
def enclose (left right : Char) (level : Nat) (items : List (List Char)) : List Char :=
  if items.isEmpty then [left, right]
  else
    left :: lineBreak (level + 1) ++ List.intercalate (',' :: lineBreak (level + 1)) items ++
      lineBreak level ++ [right]

namespace Value

mutual

/-- The written form of a document at some level. -/
def write (level : Nat) : Value → List Char
  | .null => ['n', 'u', 'l', 'l']
  | .boolean true => ['t', 'r', 'u', 'e']
  | .boolean false => ['f', 'a', 'l', 's', 'e']
  | .number n => numeral n
  | .string s => quote s
  | .list elements => enclose '[' ']' level (writeElements (level + 1) elements)
  | .object fields => enclose '{' '}' level (writeFields (level + 1) fields)

/-- The written forms of the elements of a list. -/
def writeElements (level : Nat) : List Value → List (List Char)
  | [] => []
  | v :: vs => v.write level :: writeElements level vs

/-- The written forms of the fields of an object. -/
def writeFields (level : Nat) : List (List Char × Value) → List (List Char)
  | [] => []
  | (key, v) :: fields => (quote key ++ [':', ' '] ++ v.write level) :: writeFields level fields

end

end Value

end TodoAudit.Json
