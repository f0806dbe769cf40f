import ApiContract.Text.Digit
import ApiContract.Yaml.Cursor

/-!
# Tags

A tag gives a node its type.  A plain scalar without a tag gets one from its text: words for
truth values and null, whole numbers, fractions, times, and two marks with a meaning of their own
in mappings.  All other texts are texts.
-/

namespace ApiContract.Yaml

inductive Tag where
  | null
  | bool
  | int
  | float
  | binary
  | timestamp
  | omap
  | pairs
  | set
  | str
  | seq
  | map
  | merge
  | value
  | other
  deriving DecidableEq, Repr

namespace Tag

/-- What the names of the core tags start with. -/
def coreLead : String := "tag:yaml.org,2002:"

def coreNames : List (String × Tag) :=
  [("null", null), ("bool", bool), ("int", int), ("float", float), ("binary", binary),
    ("timestamp", timestamp), ("omap", omap), ("pairs", pairs), ("set", set), ("str", str),
    ("seq", seq), ("map", map), ("merge", merge), ("value", value)]

/-- The tag of a full name. -/
def ofName (name : List Char) : Tag :=
  match coreNames.find? fun core => (coreLead ++ core.1).toList = name with
  | some core => core.2
  | none => other

end Tag

/-! ## Classes of plain scalars -/

def boolWords : List String :=
  ["yes", "Yes", "YES", "no", "No", "NO", "true", "True", "TRUE", "false", "False", "FALSE",
    "on", "On", "ON", "off", "Off", "OFF"]

def nullWords : List String := ["~", "null", "Null", "NULL", ""]

def isDigitOrGap (c : Char) : Bool := c.isDigit || c == '_'

def isOctalOrGap (c : Char) : Bool := ('0' ≤ c && c ≤ '7') || c == '_'

/-- Drops one sign. -/
def dropSign : List Char → List Char
  | '+' :: rest => rest
  | '-' :: rest => rest
  | cs => cs

/-- The parts between colons; there is always at least one. -/
def colonParts : List Char → List (List Char)
  | [] => [[]]
  | c :: rest =>
      if c == ':' then [] :: colonParts rest
      else match colonParts rest with
        | [] => [[c]]
        | part :: parts => (c :: part) :: parts

/-- One or two digits below sixty. -/
def isSixtieth : List Char → Bool
  | [d] => d.isDigit
  | [t, d] => ('0' ≤ t && t ≤ '5') && d.isDigit
  | _ => false

/-- A whole number in decimal digits that does not start with zero. -/
def isWholeDigits : List Char → Bool
  | c :: rest => ('1' ≤ c && c ≤ '9') && rest.all isDigitOrGap
  | [] => false

/-- A whole number: binary, octal, decimal, in base sixteen or in base sixty. -/
def isInt (text : List Char) : Bool :=
  match dropSign text with
  | ['0'] => true
  | '0' :: 'b' :: rest => !rest.isEmpty && rest.all fun c => c == '0' || c == '1' || c == '_'
  | '0' :: 'x' :: rest => !rest.isEmpty && rest.all fun c => (Text.hexValue? c).isSome || c == '_'
  | '0' :: rest => rest.all isOctalOrGap
  | body => match colonParts body with
    | whole :: sixtieths => isWholeDigits whole && sixtieths.all isSixtieth
    | [] => false

/-- Nothing, or an exponent with a sign. -/
def isExponentOrEnd : List Char → Bool
  | [] => true
  | mark :: sign :: digits =>
      (mark == 'e' || mark == 'E') && (sign == '+' || sign == '-') && !digits.isEmpty &&
        digits.all (·.isDigit)
  | _ => false

/-- Digits and gaps, the first one a digit. -/
def isGroupedDigits : List Char → Bool
  | c :: rest => c.isDigit && rest.all isDigitOrGap
  | [] => false

/-- Parts in base sixty, the last one with a point behind it. -/
def isSexagesimalFraction (text : List Char) : Bool :=
  let whole := text.takeWhile (· != '.')
  let fraction := text.dropWhile (· != '.')
  match colonParts whole with
  | first :: sixtieth :: rest =>
      isGroupedDigits first && (sixtieth :: rest).all isSixtieth && !fraction.isEmpty &&
        fraction.tail.all isDigitOrGap
  | _ => false

/-- A fraction with digits in front of its point. -/
def isPointedNumber (text : List Char) : Bool :=
  let whole := text.takeWhile isDigitOrGap
  match text.dropWhile isDigitOrGap with
  | '.' :: rest => isGroupedDigits whole && isExponentOrEnd (rest.dropWhile isDigitOrGap)
  | _ => false

/-- A fraction, an infinity or not a number. -/
def isFloat (text : List Char) : Bool :=
  let body := dropSign text
  isPointedNumber body || isSexagesimalFraction body ||
    (match text with
      | '.' :: d :: rest => d.isDigit && isExponentOrEnd (rest.dropWhile isDigitOrGap)
      | _ => false) ||
    [".inf", ".Inf", ".INF"].contains (String.ofList body) ||
    [".nan", ".NaN", ".NAN"].contains (String.ofList text)

/-! ## Times -/

/-- The parts of a time as written. -/
structure TimeParts where
  year : List Char
  month : List Char
  day : List Char
  clock : Option (List Char × List Char × List Char)
  fraction : List Char
  zone : Option (Char × List Char × List Char)
  deriving DecidableEq, Repr

/-- A number of digits between two bounds, and the rest. -/
def digitRun? (least most : Nat) (text : List Char) : Option (List Char × List Char) :=
  let digits := (text.take most).takeWhile (·.isDigit)
  if digits.length < least then none else some (digits, text.drop digits.length)

/-- A mark, and what follows it. -/
def afterMark? (mark : Char) : List Char → Option (List Char)
  | c :: rest => if c == mark then some rest else none
  | [] => none

/-- A zone at the end of a time: nothing, `Z`, or an offset in hours and minutes. -/
def zoneParts? (text : List Char) : Option (Option (Char × List Char × List Char)) :=
  match text, text.dropWhile isSpaceOrTab with
  | [], _ => some none
  | _, ['Z'] => some (some ('Z', [], []))
  | _, sign :: rest =>
      if sign == '+' || sign == '-' then do
        let (hour, tail) ← digitRun? 1 2 rest
        match tail with
        | [] => some (some (sign, hour, []))
        | _ => do
            let (minute, stop) ← digitRun? 2 2 (← afterMark? ':' tail)
            if stop.isEmpty then some (some (sign, hour, minute)) else none
      else none
  | _, [] => none

/-- The parts behind a date: a clock time, perhaps a fraction of its second, perhaps a zone. -/
def clockParts? (year month day text : List Char) : Option TimeParts := do
  let start ← match text with
    | c :: rest =>
        if c == 'T' || c == 't' then some rest
        else if isSpaceOrTab c then some (text.dropWhile isSpaceOrTab)
        else none
    | [] => none
  let (hour, afterHour) ← digitRun? 1 2 start
  let (minute, afterMinute) ← digitRun? 2 2 (← afterMark? ':' afterHour)
  let (second, afterSecond) ← digitRun? 2 2 (← afterMark? ':' afterMinute)
  let (fraction, tail) := match afterSecond with
    | '.' :: rest => (rest.takeWhile (·.isDigit), rest.dropWhile (·.isDigit))
    | rest => ([], rest)
  some ⟨year, month, day, some (hour, minute, second), fraction, ← zoneParts? tail⟩

/-- The parts of a date, or of a date with a clock time. -/
def timeParts? (text : List Char) : Option TimeParts := do
  let (year, afterYear) ← digitRun? 4 4 text
  let (month, afterMonth) ← digitRun? 1 2 (← afterMark? '-' afterYear)
  let (day, tail) ← digitRun? 1 2 (← afterMark? '-' afterMonth)
  if tail.isEmpty then some ⟨year, month, day, none, [], none⟩
  else clockParts? year month day tail

/-- A plain scalar that is a time.  A date alone has two digits for the month and for the day. -/
def isTimestamp (text : List Char) : Bool :=
  match timeParts? text with
  | some parts => parts.clock.isSome || (parts.month.length == 2 && parts.day.length == 2)
  | none => false

/-- A text without a line feed at its end. -/
def dropLastBreak (text : List Char) : List Char :=
  if text.getLast? = some '\n' then text.dropLast else text

/-- The tag that a text gives to a plain scalar. -/
def implicitTag (text : List Char) : Tag :=
  let body := dropLastBreak text
  let word := String.ofList body
  if boolWords.contains word then .bool
  else if isFloat body then .float
  else if isInt body then .int
  else if word == "<<" then .merge
  else if nullWords.contains word && (body == text || !body.isEmpty) then .null
  else if isTimestamp body then .timestamp
  else if word == "=" then .value
  else if ["!", "&", "*"].contains word then .other
  else .str

end ApiContract.Yaml
