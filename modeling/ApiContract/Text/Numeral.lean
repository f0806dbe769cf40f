import ApiContract.Binary64
import ApiContract.Text.Blank
import ApiContract.Text.Digit

/-!
# Numerals

Readers for whole numbers in a base and for decimal fractions, as they occur in scalars, settings
and command-line options.  Digits of every script count as decimal digits; a single underscore may
stand between two digits.
-/

namespace ApiContract.Text

/-- The most decimal digits that a whole number may be written with. -/
def digitLimit : Nat := 4300

/-- Replaces digits of other scripts by ASCII digits. -/
def foldDigits (cs : List Char) : List Char :=
  cs.map fun c => match digitValue? c with
    | some d => Char.ofNat (48 + d)
    | none => c

/-- Removes the underscores of a digit run; `none` when one does not stand between two
characters of the class. -/
def joinGroups? (isDigit : Char → Bool) : List Char → Option (List Char)
  | [] => some []
  | ['_'] => none
  | c :: '_' :: d :: rest =>
      if isDigit c && isDigit d then (joinGroups? isDigit (d :: rest)).map (c :: ·) else none
  | c :: rest => if c == '_' then none else (joinGroups? isDigit rest).map (c :: ·)

/-- A sign and what follows it. -/
def splitSign : List Char → Bool × List Char
  | '-' :: rest => (true, rest)
  | '+' :: rest => (false, rest)
  | cs => (false, cs)

/-- The number that digits in a base stand for. -/
def digitsValue? (base : Nat) (cs : List Char) : Option Nat :=
  if cs.isEmpty then none
  else cs.foldl (fun acc c => do
    let n ← acc
    let d ← hexValue? c
    if d < base then some (n * base + d) else none) (some 0)

/-- Drops the mark of a base, such as `0x`, and one underscore after it. -/
def dropBaseMark (base : Nat) : List Char → List Char
  | '0' :: mark :: rest =>
      let marks : List Char := match base with
        | 2 => ['b', 'B']
        | 8 => ['o', 'O']
        | 16 => ['x', 'X']
        | _ => []
      if marks.contains mark then
        match rest with
        | '_' :: digits => digits
        | digits => digits
      else '0' :: mark :: rest
  | cs => cs

/-- A whole number: blanks around it, a sign, the mark of its base, grouped digits. -/
def wholeNumber? (base : Nat) (cs : List Char) : Option Int := do
  let body := foldDigits (trimBoth isBlank cs)
  let (negative, unsigned) := splitSign body
  let digits ← joinGroups? (fun c => (hexValue? c).any (· < base)) (dropBaseMark base unsigned)
  let n ← digitsValue? base digits
  if base == 10 && digitLimit < digits.length then none
  else some (if negative then -(n : Int) else n)

/-- The significand and the power of ten of a decimal fraction: digits with at most one point,
at least one digit, and an optional exponent. -/
def decimalParts? (cs : List Char) : Option (Nat × Int) := do
  let whole := cs.takeWhile (·.isDigit)
  let afterWhole := cs.dropWhile (·.isDigit)
  let (fraction, tail) := match afterWhole with
    | '.' :: rest => (rest.takeWhile (·.isDigit), rest.dropWhile (·.isDigit))
    | rest => ([], rest)
  let significand ← digitsValue? 10 (whole ++ fraction)
  let exponent ← match tail with
    | [] => some 0
    | mark :: rest =>
        if mark == 'e' || mark == 'E' then
          let (negative, digits) := splitSign rest
          (digitsValue? 10 digits).map fun n => if negative then -(n : Int) else n
        else none
  some (significand, exponent - (fraction.length : Int))

/-- A decimal fraction or a word for what is not finite, with a sign. -/
def number? (cs : List Char) : Option Binary64 :=
  let (negative, body) := splitSign cs
  let word := String.ofList (body.map (·.toLower))
  if word == "inf" || word == "infinity" then some (.infinity negative)
  else if word == "nan" then some .nan
  else (decimalParts? body).map fun parts => .ofDecimal negative parts.1 parts.2

/-- A number with blanks around it and grouped digits. -/
def looseNumber? (cs : List Char) : Option Binary64 := do
  let body := foldDigits (trimBoth isBlank cs)
  number? (← joinGroups? (·.isDigit) body)

end ApiContract.Text
