import ApiContract.Binary64

/-!
# The shortest decimal that reads back

A finite number is printed with the fewest decimal digits that still round to it.  For one, two,
... seventeen digits the two neighbours of the exact value on the decimal grid of that many digits
are tried; the first grid with a hit wins, of two hits the nearer one, on a tie the even one.

`Layout` holds the decisions that are a matter of format: positional between `10 ^ (-4)` and
`10 ^ 16`, otherwise with an exponent of at least two digits; a whole number keeps `.0`.
-/

namespace ApiContract.Binary64

/-- The decimal `significand * 10 ^ exponent`. -/
structure Decimal where
  significand : Nat
  exponent : Int
  deriving DecidableEq, Repr

/-- The open or closed interval of magnitudes that round to one magnitude, in quarters of a
unit, so that half of the smallest spacing is whole. -/
structure Basin where
  low : Nat
  high : Nat
  closed : Bool
  deriving DecidableEq, Repr

/-- The basin of a magnitude.  Just below a power of two the spacing is halved. -/
def basin (units : Nat) : Basin :=
  let step := spacing units
  let narrow := 1 < step && units == Nat.pow 2 (precision - 1) * step
  { low := 4 * units - (if narrow then step else 2 * step)
    high := 4 * units + 2 * step
    closed := units / step % 2 == 0 }

/-- `10 ^ e` as a fraction. -/
def powerOfTen : Int → Nat × Nat
  | .ofNat e => (Nat.pow 10 e, 1)
  | .negSucc e => (1, Nat.pow 10 (e + 1))

/-- Whether a decimal lies in a basin. -/
def Basin.holds (b : Basin) (d : Decimal) : Bool :=
  let p := powerOfTen d.exponent
  let value := 4 * d.significand * p.1 * unitsPerOne
  if b.closed then b.low * p.2 ≤ value && value ≤ b.high * p.2
  else b.low * p.2 < value && value < b.high * p.2

/-- Position of the first digit of a magnitude: the largest `e` with `10 ^ e ≤ units`, for a
positive count of units. -/
def leadingExponent (units : Nat) : Int :=
  let scaled := units * Nat.pow 10 400 / unitsPerOne
  (Nat.toDigits 10 scaled).length - 401

/-- The hit of a grid with spacing `10 ^ exponent`, if it has one. -/
def gridHit? (units : Nat) (b : Basin) (exponent : Int) : Option Decimal :=
  let p := powerOfTen exponent
  let num := units * p.2
  let den := p.1 * unitsPerOne
  let below : Decimal := ⟨num / den, exponent⟩
  let above : Decimal := ⟨num / den + 1, exponent⟩
  match b.holds below, b.holds above with
  | true, false => some below
  | false, true => some above
  | true, true => some ⟨roundQuotient num den, exponent⟩
  | false, false => none

/-- Tries grids of more and more digits, from `10 ^ exponent` downwards. -/
def searchGrids (units : Nat) (b : Basin) : Nat → Int → Decimal
  | 0, exponent =>
      ⟨units * (powerOfTen exponent).2 / ((powerOfTen exponent).1 * unitsPerOne), exponent⟩
  | tries + 1, exponent =>
      match gridHit? units b exponent with
      | some d => d
      | none => searchGrids units b tries (exponent - 1)

/-- The shortest decimal of a positive magnitude. -/
def shortest (units : Nat) : Decimal :=
  searchGrids units (basin units) 17 (leadingExponent units)

/-- Format decisions for printed numbers. -/
structure Layout where
  leastPositional : Int
  firstExponential : Int
  exponentDigits : Nat
  deriving DecidableEq, Repr

def layout : Layout := ⟨-4, 16, 2⟩

/-- Digits of a natural number, padded with zeros on the left. -/
def padded (width n : Nat) : List Char :=
  let digits := Nat.toDigits 10 n
  List.replicate (width - digits.length) '0' ++ digits

/-- The digits of a significand without trailing zeros. -/
def significantDigits (n : Nat) : List Char :=
  ((Nat.toDigits 10 n).reverse.dropWhile (· == '0')).reverse

/-- Positional text of digits whose first one stands for `10 ^ lead`. -/
def positional (digits : List Char) (lead : Int) : List Char :=
  match lead with
  | .negSucc e => '0' :: '.' :: (List.replicate e '0' ++ digits)
  | .ofNat e =>
      let whole := digits.take (e + 1)
      let fraction := digits.drop (e + 1)
      whole ++ List.replicate (e + 1 - whole.length) '0' ++
        '.' :: (if fraction.isEmpty then ['0'] else fraction)

/-- Text with an exponent of digits whose first one stands for `10 ^ lead`. -/
def exponential (digits : List Char) (lead : Int) : List Char :=
  let mantissa := match digits with
    | first :: second :: rest => first :: '.' :: second :: rest
    | few => few
  mantissa ++ 'e' :: (if lead < 0 then '-' else '+') :: padded layout.exponentDigits lead.natAbs

/-- Text of a magnitude. -/
def magnitudeText (units : Nat) : List Char :=
  if units = 0 then ['0', '.', '0']
  else
    let d := shortest units
    let lead := (Nat.toDigits 10 d.significand).length - 1 + d.exponent
    let digits := significantDigits d.significand
    if layout.leastPositional ≤ lead ∧ lead < layout.firstExponential then positional digits lead
    else exponential digits lead

/-- Text of a number, with the given words for what is not finite. -/
def textWith (nanWord infinityWord : String) : Binary64 → String
  | .nan => nanWord
  | .infinity s => if s then "-" ++ infinityWord else infinityWord
  | .finite s u => String.ofList ((if s then ['-'] else []) ++ magnitudeText u)

/-- Text of a number in messages. -/
def text : Binary64 → String := textWith "nan" "inf"

end ApiContract.Binary64
