/-!
# Blank characters

Three sets that different formats call white space, from the narrowest to the widest.
-/

namespace ApiContract.Text

/-- Space, tab, line feed, vertical tab, form feed and carriage return. -/
def isAsciiBlank (c : Char) : Bool :=
  c == ' ' || (9 ≤ c.toNat && c.toNat ≤ 13)

/-- The white-space property of the character set. -/
def isBlank (c : Char) : Bool :=
  isAsciiBlank c || c.toNat == 0x85 || c.toNat == 0xA0 || c.toNat == 0x1680 ||
    (0x2000 ≤ c.toNat && c.toNat ≤ 0x200A) || c.toNat == 0x2028 || c.toNat == 0x2029 ||
    c.toNat == 0x202F || c.toNat == 0x205F || c.toNat == 0x3000

/-- Blank characters and the four information separators of ASCII. -/
def isBlankOrSeparator (c : Char) : Bool :=
  isBlank c || (0x1C ≤ c.toNat && c.toNat ≤ 0x1F)

/-- A text without the characters of a class at either end. -/
def trimBoth (skip : Char → Bool) (cs : List Char) : List Char :=
  ((cs.dropWhile skip).reverse.dropWhile skip).reverse

theorem isBlank_of_isAsciiBlank {c : Char} (h : isAsciiBlank c = true) : isBlank c = true := by
  simp [isBlank, h]

theorem isBlankOrSeparator_of_isBlank {c : Char} (h : isBlank c = true) :
    isBlankOrSeparator c = true := by
  simp [isBlankOrSeparator, h]

end ApiContract.Text
