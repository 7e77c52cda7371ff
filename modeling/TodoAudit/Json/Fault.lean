import TodoAudit.Text.Quoted
import TodoAudit.Text.Shortest

/-!
# Faults in JSON texts

A text can be no JSON, it can end too early, or it can be JSON of the wrong content. A text is read
from left to right, and the first fault is the one that counts.
-/

namespace TodoAudit.Json

open Text

/-- What was being read when the text ended. -/
inductive Unfinished where
  | value | list | object | string
deriving DecidableEq, Repr

/-- The fault in words. -/
def Unfinished.message : Unfinished → String
  | .value => "EOF while parsing a value"
  | .list => "EOF while parsing a list"
  | .object => "EOF while parsing an object"
  | .string => "EOF while parsing a string"

/-- Why a text is no JSON. -/
inductive Malformed where
  | expectedColon
  | expectedListCommaOrEnd
  | expectedObjectCommaOrEnd
  | expectedWord
  | expectedValue
  | keyNotString
  | trailingComma
  | trailingCharacters
  | invalidEscape
  | invalidNumber
  | numberOutOfRange
  | controlCharacter
  | loneSurrogate
  | unpairedSurrogate
deriving DecidableEq, Repr

/-- The fault in words. -/
def Malformed.message : Malformed → String
  | .expectedColon => "expected `:`"
  | .expectedListCommaOrEnd => "expected `,` or `]`"
  | .expectedObjectCommaOrEnd => "expected `,` or `\x7d`"
  | .expectedWord => "expected ident"
  | .expectedValue => "expected value"
  | .keyNotString => "key must be a string"
  | .trailingComma => "trailing comma"
  | .trailingCharacters => "trailing characters"
  | .invalidEscape => "invalid escape"
  | .invalidNumber => "invalid number"
  | .numberOutOfRange => "number out of range"
  | .controlCharacter => "control character (\\u0000-\\u001F) found while parsing a string"
  | .loneSurrogate => "lone leading surrogate in hex escape"
  | .unpairedSurrogate => "unexpected end of hex escape"

/-- A number as it is kept: whole if it fits 64 bits and has neither point nor exponent. -/
inductive Number where
  | whole (n : Int)
  | fraction (x : Float)

/-- The kind of a value, with the value if it is a scalar. -/
inductive Kind where
  | null
  | boolean (b : Bool)
  | number (n : Number)
  | string (s : List Char)
  | sequence
  | map

/-- The kind in words. -/
def Kind.message : Kind → String
  | .null => "null"
  | .boolean b => "boolean `" ++ toString b ++ "`"
  | .number (.whole n) => "integer `" ++ toString n ++ "`"
  | .number (.fraction x) =>
    "floating point `" ++ String.ofList (Shortest.ofBits x.toBits.toNat) ++ "`"
  | .string s => "string " ++ String.ofList (Quoted.encode s)
  | .sequence => "sequence"
  | .map => "map"

/-- Why a JSON text has the wrong content. -/
inductive Mismatch where
  /-- A key that is none of the expected ones. -/
  | unknownField (key : String) (expected : List String)
  /-- A key that has come before. -/
  | duplicateField (key : String)
  /-- A value of the wrong kind. -/
  | invalidType (found : Kind) (expected : String)
  /-- A list with too few elements. -/
  | invalidLength (length : Nat) (expected : String)

/-- The fault in words. -/
def Mismatch.message : Mismatch → String
  | .unknownField key expected =>
    "unknown field `" ++ key ++ "`, expected one of " ++
      ", ".intercalate (expected.map fun e => "`" ++ e ++ "`")
  | .duplicateField key => "duplicate field `" ++ key ++ "`"
  | .invalidType found expected => "invalid type: " ++ found.message ++ ", expected " ++ expected
  | .invalidLength length expected =>
    "invalid length " ++ toString length ++ ", expected " ++ expected

/-- The first fault of a text. -/
inductive Fault where
  | malformed (fault : Malformed)
  | unfinished (inside : Unfinished)
  | mismatch (fault : Mismatch)

/-- The fault in words. -/
def Fault.message : Fault → String
  | .malformed fault => fault.message
  | .unfinished inside => inside.message
  | .mismatch fault => fault.message

end TodoAudit.Json
