import ApiContract.Text.Printable
import ApiContract.Text.Surrogate

/-!
# Quoted text in messages

A text is quoted with apostrophes, or with double quotes when it holds an apostrophe and no double
quote.  Inside, the quote in use and the backslash are escaped, three controls have short escapes,
and whatever is not printable is written by its code point in two, four or eight digits.
-/

namespace ApiContract.Text

/-- The quote that needs no escape, if one of the two does not. -/
def chooseQuote (cs : List Char) : Char :=
  if cs.contains '\'' && !cs.contains '"' then '"' else '\''

/-- A code point by number, with the least of the three widths that holds it. -/
def codeEscape (code : Nat) : List Char :=
  if code ≤ 0xFF then '\\' :: 'x' :: hexDigits 2 code
  else if code ≤ 0xFFFF then '\\' :: 'u' :: hexDigits 4 code
  else '\\' :: 'U' :: hexDigits 8 code

/-- One character inside quotes. -/
def quotedChar (quote c : Char) : List Char :=
  if c == quote || c == '\\' then ['\\', c]
  else if c == '\n' then ['\\', 'n']
  else if c == '\r' then ['\\', 'r']
  else if c == '\t' then ['\\', 't']
  else if isPrintable c then [c]
  else match surrogate? c with
    | some unit => codeEscape unit
    | none => codeEscape c.toNat

/-- A text in quotes. -/
def quoted (s : String) : String :=
  let quote := chooseQuote s.toList
  String.ofList (quote :: s.toList.flatMap (quotedChar quote) ++ [quote])

/-- Bytes in quotes, marked with `b`; a byte beyond ASCII is written by number. -/
def quotedBytes (octets : List UInt8) : String :=
  let cs := octets.map fun b => Char.ofNat b.toNat
  let quote := chooseQuote cs
  let one (c : Char) : List Char := if c.toNat < 127 then quotedChar quote c else codeEscape c.toNat
  String.ofList ('b' :: quote :: cs.flatMap one ++ [quote])

end ApiContract.Text
