/-!
# Lone surrogates

An escape such as `\ud800` can name half of a surrogate pair, which is no character.  A text
carries a lone half as a stand-in from the last 2048 code points of the private plane, so that it
passes through every stage and can be written as the same escape again.
-/

namespace ApiContract.Text

/-- First code point used as a stand-in. -/
def standInBase : Nat := 0x10F800

def isHighSurrogate (unit : Nat) : Bool := 0xD800 ≤ unit && unit < 0xDC00

def isLowSurrogate (unit : Nat) : Bool := 0xDC00 ≤ unit && unit < 0xE000

/-- The character of a 16-bit unit; a surrogate gives its stand-in. -/
def ofUnit (unit : Nat) : Char :=
  if 0xD800 ≤ unit && unit < 0xE000 then Char.ofNat (unit - 0xD800 + standInBase)
  else Char.ofNat unit

/-- The character of a high and a low surrogate. -/
def ofPair (high low : Nat) : Char :=
  Char.ofNat (0x10000 + (high - 0xD800) * 0x400 + (low - 0xDC00))

/-- The surrogate that a stand-in carries. -/
def surrogate? (c : Char) : Option Nat :=
  if standInBase ≤ c.toNat then some (c.toNat - standInBase + 0xD800) else none

/-- Digits of a number in base sixteen, padded with zeros on the left. -/
def hexDigits (width n : Nat) : List Char :=
  let digits := Nat.toDigits 16 n
  List.replicate (width - digits.length) '0' ++ digits

end ApiContract.Text
