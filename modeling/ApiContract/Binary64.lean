/-!
# Double precision numbers, exactly

A number of the 64-bit binary format is held as what it means and not as a word: not a number, an
infinity, or a sign and a count of *units*.  The unit is the smallest positive number of the
format, `2 ^ (-1074)`, so every finite number is a whole count of units and no operation below
leaves the natural numbers.

Every operation computes the exact result first and rounds it once, to the nearest number of the
format and on a tie to the one with an even significand.
-/

namespace ApiContract

/-- A number of the 64-bit binary format.  `finite negative units` has the magnitude
`units * 2 ^ (-1074)`; a zero keeps its sign. -/
inductive Binary64 where
  | nan
  | infinity (negative : Bool)
  | finite (negative : Bool) (units : Nat)
  deriving DecidableEq, Repr, Inhabited

namespace Binary64

/-- Units in one: `2 ^ 1074`. -/
def unitsPerOne : Nat := Nat.pow 2 1074

/-- The first count of units that the format cannot hold: `2 ^ 1024` in units. -/
def unitLimit : Nat := Nat.pow 2 2098

/-- Binary digits of the significand. -/
def precision : Nat := 53

/-- Number of binary digits of a natural number; zero has none. -/
def bitLength (n : Nat) : Nat :=
  if n = 0 then 0 else n.log2 + 1

/-- The quotient rounded to the nearest natural number, a tie to the even one. -/
def roundQuotient (num den : Nat) : Nat :=
  let whole := num / den
  let twice := 2 * (num % den)
  if twice < den then whole
  else if den < twice then whole + 1
  else if whole % 2 = 0 then whole else whole + 1

/-- Distance between the numbers of the format around a magnitude of `units` units. -/
def spacing (units : Nat) : Nat :=
  Nat.pow 2 (bitLength units - precision)

/-- The number of the format that is nearest to `num / den` units. -/
def ofUnits (negative : Bool) (num den : Nat) : Binary64 :=
  let step := spacing (num / den)
  let units := roundQuotient num (den * step) * step
  if units < unitLimit then .finite negative units else .infinity negative

/-- The number nearest to `significand * 10 ^ exponent`.

Magnitudes beyond `10 ^ 310` and below `10 ^ (-330)` are decided by their size alone, so a huge
exponent costs nothing. -/
def ofDecimal (negative : Bool) (significand : Nat) (exponent : Int) : Binary64 :=
  if significand = 0 then .finite negative 0
  else
    let digits : Int := (bitLength significand : Int) * 30103 / 100000
    if 310 < digits + exponent then .infinity negative
    else if digits + exponent < -330 then .finite negative 0
    else match exponent with
      | .ofNat e => ofUnits negative (significand * Nat.pow 10 e * unitsPerOne) 1
      | .negSucc e => ofUnits negative (significand * unitsPerOne) (Nat.pow 10 (e + 1))

/-- A number unless it is infinite. -/
def bounded? : Binary64 → Option Binary64
  | .infinity _ => none
  | x => some x

/-- The number nearest to an integer; `none` when its magnitude is beyond the format. -/
def ofInt? (n : Int) : Option Binary64 :=
  (ofUnits (decide (n < 0)) (n.natAbs * unitsPerOne) 1).bounded?

def zero : Binary64 := .finite false 0

/-- Thirty, a whole number of units. -/
def thirty : Binary64 := .finite false (30 * unitsPerOne)

def one : Binary64 := .finite false unitsPerOne

def negate : Binary64 → Binary64
  | .nan => .nan
  | .infinity s => .infinity (!s)
  | .finite s u => .finite (!s) u

/-- Signed count of units of a finite number. -/
def signedUnits (negative : Bool) (units : Nat) : Int :=
  if negative then -(units : Int) else units

/-- The sum, rounded once.  An exact zero is positive unless both summands are negative. -/
def add : Binary64 → Binary64 → Binary64
  | .nan, _ => .nan
  | _, .nan => .nan
  | .infinity s, .infinity t => if s = t then .infinity s else .nan
  | .infinity s, .finite _ _ => .infinity s
  | .finite _ _, .infinity t => .infinity t
  | .finite s a, .finite t b =>
      let total := signedUnits s a + signedUnits t b
      if total = 0 then .finite (s && t) 0
      else ofUnits (decide (total < 0)) total.natAbs 1

/-- The product, rounded once. -/
def mul : Binary64 → Binary64 → Binary64
  | .nan, _ => .nan
  | _, .nan => .nan
  | .infinity s, .infinity t => .infinity (s != t)
  | .infinity s, .finite t b => if b = 0 then .nan else .infinity (s != t)
  | .finite s a, .infinity t => if a = 0 then .nan else .infinity (s != t)
  | .finite s a, .finite t b => ofUnits (s != t) (a * b) unitsPerOne

def isFinite : Binary64 → Bool
  | .finite _ _ => true
  | _ => false

/-- Both zeros, and nothing else. -/
def isZero : Binary64 → Bool
  | .finite _ u => u == 0
  | _ => false

/-- Greater than zero; not a number is not. -/
def isPositive : Binary64 → Bool
  | .nan => false
  | .infinity s => !s
  | .finite s u => !s && u != 0

/-- The integer that a number with no fraction stands for. -/
def toInt? : Binary64 → Option Int
  | .finite s u => if u % unitsPerOne = 0 then some (signedUnits s (u / unitsPerOne)) else none
  | _ => none

/-- Equality of the values that two numbers stand for: the zeros are equal, and not a number is
the same as not a number. -/
def same (x y : Binary64) : Bool :=
  x == y || (x.isZero && y.isZero)

/-- Whether a number is exactly the integer `n`. -/
def isInt (x : Binary64) (n : Int) : Bool :=
  match x with
  | .finite s u => signedUnits s u == n * (unitsPerOne : Int)
  | _ => false

theorem same_self (x : Binary64) : x.same x = true := by
  simp [same]

end Binary64

end ApiContract
