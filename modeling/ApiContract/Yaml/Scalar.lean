import ApiContract.Text.Numeral
import ApiContract.Value
import ApiContract.Yaml.Tag

/-!
# Values of scalars

What the text of a scalar stands for under its tag.  A text that does not fit a tag which was
given in the document, or a number beyond what values can hold, is unreadable.
-/

namespace ApiContract.Yaml

/-- A number without its underscores. -/
def withoutGaps (text : List Char) : List Char := text.filter (· != '_')

def applySign (negative : Bool) (n : Int) : Int := if negative then -n else n

/-- Digits of a number in base sixty, the most significant first. -/
def sexagesimal (parts : List Int) : Int := parts.foldl (fun n part => n * 60 + part) 0

/-- A whole number. -/
def intOf? (text : List Char) : Option Int := do
  let grouped := withoutGaps text
  if grouped.isEmpty then none
  let (negative, body) := Text.splitSign grouped
  let magnitude ← match body with
    | [] => none
    | ['0'] => some 0
    | '0' :: 'b' :: digits => Text.wholeNumber? 2 digits
    | '0' :: 'x' :: digits => Text.wholeNumber? 16 digits
    | '0' :: digits => Text.wholeNumber? 8 ('0' :: digits)
    | digits =>
        if digits.contains ':' then sexagesimal <$> (colonParts digits).mapM (Text.wholeNumber? 10)
        else Text.wholeNumber? 10 digits
  some (applySign negative magnitude)

/-- The sum of parts in base sixty, the least significant first. -/
def sexagesimalSum? : List Binary64 → (weight : Nat) → Binary64 → Option Binary64
  | [], _, total => some total
  | part :: rest, weight, total => do
      let factor ← Binary64.ofInt? weight
      sexagesimalSum? rest (weight * 60) (total.add (part.mul factor))

/-- A fraction, an infinity or not a number. -/
def floatOf? (text : List Char) : Option Binary64 := do
  let grouped := (withoutGaps text).map (·.toLower)
  if grouped.isEmpty then none
  let (negative, body) := Text.splitSign grouped
  let signed (x : Binary64) : Binary64 := if negative then x.negate else x
  match body with
  | ['.', 'i', 'n', 'f'] => some (.infinity negative)
  | ['.', 'n', 'a', 'n'] => some .nan
  | digits =>
      if digits.contains ':' then do
        let parts ← (colonParts digits).mapM Text.looseNumber?
        signed <$> sexagesimalSum? parts.reverse 1 .zero
      else signed <$> Text.looseNumber? digits

/-- The number that digits stand for. -/
def natOf (digits : List Char) : Nat := (Text.digitsValue? 10 digits).getD 0

/-- Microseconds from the digits behind the point; digits beyond the sixth are dropped. -/
def microsOf (digits : List Char) : Nat :=
  let six := digits.take 6
  natOf (six ++ List.replicate (6 - six.length) '0')

/-- The offset of a zone in minutes. -/
def offsetOf : Option (Char × List Char × List Char) → Option Int
  | none => none
  | some (sign, hour, minute) =>
      let minutes := natOf hour * 60 + natOf minute
      some (if sign == '-' then -(minutes : Int) else minutes)

/-- A date, or a date with a clock time. -/
def timeOf? (text : List Char) : Option Value := do
  let parts ← timeParts? (dropLastBreak text)
  let date ← Date.of? (natOf parts.year) (natOf parts.month) (natOf parts.day)
  match parts.clock with
  | none => some (.date date)
  | some (hour, minute, second) =>
      .time <$> Timestamp.of? date (natOf hour) (natOf minute) (natOf second)
        (microsOf parts.fraction) (offsetOf parts.zone)

def boolOf? (text : List Char) : Option Bool :=
  let word := String.ofList (text.map (·.toLower))
  if ["yes", "true", "on"].contains word then some true
  else if ["no", "false", "off"].contains word then some false
  else none

/-! ## Binary data -/

/-- The value of a digit in base sixty-four. -/
def base64Value? (c : Char) : Option Nat :=
  if 'A' ≤ c && c ≤ 'Z' then some (c.toNat - 65)
  else if 'a' ≤ c && c ≤ 'z' then some (c.toNat - 71)
  else if c.isDigit then some (c.toNat + 4)
  else if c == '+' then some 62
  else if c == '/' then some 63
  else none

/-- Reads digits in base sixty-four.  `place` counts the digits of the current group of four,
`left` holds the bits that are left over, `pads` counts the padding marks in a row.  Other
characters are passed over.  The data ends where padding completes a group; otherwise a group must
be complete. -/
def base64Octets? : List Char → (place left pads : Nat) → List UInt8 → Option (List UInt8)
  | [], place, _, _, octets => if place = 0 then some octets.reverse else none
  | c :: rest, place, left, pads, octets =>
      if c == '=' then
        if 2 ≤ place then
          if 4 ≤ place + pads + 1 then some octets.reverse
          else base64Octets? rest place left (pads + 1) octets
        else base64Octets? rest place left pads octets
      else match base64Value? c with
        | none => base64Octets? rest place left pads octets
        | some v => match place with
          | 0 => base64Octets? rest 1 v 0 octets
          | 1 => base64Octets? rest 2 (v % 16) 0 ((left * 4 + v / 16).toUInt8 :: octets)
          | 2 => base64Octets? rest 3 (v % 4) 0 ((left * 16 + v / 4).toUInt8 :: octets)
          | _ => base64Octets? rest 0 0 0 ((left * 64 + v).toUInt8 :: octets)

/-- Binary data; malformed unless it is ASCII and its groups are complete. -/
def binaryOf (text : List Char) : Except Fault Value :=
  if text.all (·.toNat < 128) then
    match base64Octets? text 0 0 0 [] with
    | some octets => .ok (.bytes octets)
    | none => .error .malformed
  else .error .malformed

/-! ## Scalars -/

def orUnreadable {α : Type} : Option α → Except Fault α
  | some a => .ok a
  | none => .error .unreadable

/-- The value of a scalar.  Tags of collections and tags without a meaning do not fit a scalar. -/
def scalarValue (tag : Tag) (text : List Char) : Except Fault Value :=
  match tag with
  | .null => .ok .null
  | .bool => orUnreadable ((boolOf? text).map .bool)
  | .int => orUnreadable ((intOf? text).map .int)
  | .float => orUnreadable ((floatOf? text).map .float)
  | .binary => binaryOf text
  | .timestamp => orUnreadable (timeOf? text)
  | .str => .ok (.str (String.ofList text))
  | _ => .error .malformed

end ApiContract.Yaml
