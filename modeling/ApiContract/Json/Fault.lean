/-!
# What can be wrong with a JSON text

A flaw is reported with the position of the character where it shows, counted in characters from
the start.  The message adds the line and the column; lines end at line feeds only.
-/

namespace ApiContract.Json

/-- Kinds of malformed JSON. -/
inductive Flaw where
  | byteOrderMark
  | noValue
  | noName
  | noColon
  | noComma
  | openString
  | controlCharacter
  | badEscape
  | badUnicodeEscape
  | extraData
  deriving DecidableEq, Repr

/-- Why a text was not read.  A whole number with too many digits is refused although it is well
formed. -/
inductive Fault where
  | malformed (flaw : Flaw) (position : Nat)
  | oversizedNumber
  deriving DecidableEq, Repr

def Flaw.phrase : Flaw → String
  | .byteOrderMark => "Unexpected UTF-8 BOM (decode using utf-8-sig)"
  | .noValue => "Expecting value"
  | .noName => "Expecting property name enclosed in double quotes"
  | .noColon => "Expecting ':' delimiter"
  | .noComma => "Expecting ',' delimiter"
  | .openString => "Unterminated string starting at"
  | .controlCharacter => "Invalid control character at"
  | .badEscape => "Invalid \\escape"
  | .badUnicodeEscape => "Invalid \\uXXXX escape"
  | .extraData => "Extra data"

/-- Line of a position, counted from one. -/
def lineOf (text : List Char) (position : Nat) : Nat :=
  (text.take position).count '\n' + 1

/-- Column of a position, counted from one. -/
def columnOf (text : List Char) (position : Nat) : Nat :=
  ((text.take position).reverse.takeWhile (· != '\n')).length + 1

/-- The full message of a flaw at a position of a text. -/
def Flaw.message (flaw : Flaw) (text : List Char) (position : Nat) : String :=
  s!"{flaw.phrase}: line {lineOf text position} column {columnOf text position} (char {position})"

end ApiContract.Json
