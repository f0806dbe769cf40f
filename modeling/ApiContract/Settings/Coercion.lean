import ApiContract.Fault.Settings
import ApiContract.Settings
import ApiContract.Text.Numeral

/-!
# Values as settings

Which values a setting accepts.  A format is one of four words.  An indentation is a whole number
of at least zero, or a truth value, a fraction without a fractional part, or a text that stands
for such a number.  A timeout is a number greater than zero, or a truth value or a text that
stands for one.
-/

namespace ApiContract.Settings

/-- A value of a setting, or what is wrong with what was given. -/
abbrev Coerced (α : Type) := Except Problem α

def coerceFormat : Value → Coerced OutputFormat
  | .str s => match OutputFormat.ofName? s with
      | some f => .ok f
      | none => .error .notMember
  | _ => .error .notMember

/-! ## Whole numbers as text -/

/-- A whole number in its one form: a minus sign at most, and no leading zero. -/
def canonicalInt? (cs : List Char) : Option Int :=
  let (negative, digits) := match cs with
    | '-' :: rest => (true, rest)
    | rest => (false, rest)
  let isCanonical := match digits with
    | ['0'] => true
    | c :: rest => ('1' ≤ c && c ≤ '9') && rest.all (·.isDigit)
    | [] => false
  if isCanonical then
    (Text.digitsValue? 10 digits).map fun n => if negative then -(n : Int) else n
  else none

/-- Drops zeros, with single underscores among them, behind a leading zero.  A zero before a point
and the last character stay. -/
def dropZeros (previous : Char) (afterGap : Bool) : List Char → Option (List Char)
  | [] => some [previous]
  | c :: rest =>
      if c == '0' then dropZeros c false rest
      else if c == '_' then if afterGap then none else dropZeros c true rest
      else if c == '.' then some (previous :: c :: rest)
      else if '1' ≤ c && c ≤ '9' then some (c :: rest)
      else none

/-- A text of a number without leading zeros. -/
def withoutLeadingZeros? : List Char → Option (List Char)
  | [] => none
  | c :: rest =>
      if c == '0' then dropZeros c false rest
      else if ('1' ≤ c && c ≤ '9') || c == '-' then some (c :: rest)
      else none

/-- A text without a point that has only zeros behind it. -/
def withoutZeroFraction (cs : List Char) : List Char :=
  let fraction := (cs.dropWhile (· != '.')).drop 1
  if cs.contains '.' && fraction.all (· == '0') then cs.takeWhile (· != '.') else cs

/-- Whether two underscores stand side by side. -/
def hasDoubleGap : List Char → Bool
  | '_' :: '_' :: _ => true
  | _ :: rest => hasDoubleGap rest
  | [] => false

/-- A text without underscores, if it has some and each stands alone between other characters. -/
def withoutGaps? (cs : List Char) : Option (List Char) :=
  if cs.contains '_' && cs.head? != some '_' && cs.getLast? != some '_' && !hasDoubleGap cs then
    some (cs.filter (· != '_'))
  else none

/-- A number without the liberties that settings allow. -/
def tidied? (cs : List Char) : Option (List Char) := do
  let trimmed := Text.trimBoth Text.isBlank cs
  let unsigned ← match trimmed with
    | '+' :: '-' :: _ => none
    | '+' :: rest => some rest
    | rest => some rest
  let plain := withoutZeroFraction (← withoutLeadingZeros? unsigned)
  some ((withoutGaps? plain).getD plain)

/-- A whole number written as a text. -/
def coerceIntText (s : String) : Coerced Int :=
  if Text.digitLimit < s.utf8ByteSize then .error .oversizedWhole
  else match canonicalInt? s.toList with
    | some n => .ok n
    | none => match (tidied? s.toList).bind canonicalInt? with
      | some n => .ok n
      | none => .error .notWholeText

/-- Magnitudes from here on are refused when they come as fractions. -/
def fractionLimit : Nat := Nat.pow 2 63

/-- A whole number written as a fraction. -/
def coerceIntFraction (x : Binary64) : Coerced Int :=
  if !x.isFinite then .error .notFinite
  else match x.toInt? with
    | none => .error .fraction
    | some n => if n.natAbs < fractionLimit then .ok n else .error .oversizedWhole

def coerceInt : Value → Coerced Int
  | .int n => .ok n
  | .bool b => .ok b.toInt
  | .float x => coerceIntFraction x
  | .str s => coerceIntText s
  | _ => .error .notWhole

def coerceIndent (v : Value) : Coerced Nat := do
  let n ← coerceInt v
  if n < 0 then .error .tooSmall else .ok n.toNat

/-! ## Numbers -/

/-- A number written as a text. -/
def coerceNumberText (s : String) : Coerced Binary64 :=
  match Text.number? (Text.trimBoth Text.isBlank s.toList) with
  | some x => .ok x
  | none => match (withoutGaps? s.toList).bind Text.number? with
    | some x => .ok x
    | none => .error .notNumberText

def coerceNumber : Value → Coerced Binary64
  | .float x => .ok x
  | .int n => (Binary64.ofInt? n).elim (.error .notNumber) .ok
  | .bool b => .ok (if b then .one else .zero)
  | .str s => coerceNumberText s
  | _ => .error .notNumber

def coerceTimeout (v : Value) : Coerced Binary64 := do
  let x ← coerceNumber v
  if x.isPositive then .ok x else .error .notPositive

/-! ## Sections -/

/-- A setting of a section: its default when it is not declared, and the mismatch otherwise. -/
def coerceField {α : Type} (key : SettingKey) (default : α) (coerce : Value → Coerced α)
    (fields : Entries) : Except (List Mismatch) α :=
  match Entries.field? fields key.name with
  | none => .ok default
  | some v => match coerce v with
    | .ok a => .ok a
    | .error problem => .error [⟨[key.part, key.name], problem⟩]

/-- Both parts, or the mismatches of both. -/
def both {α β γ : Type} (f : α → β → γ) :
    Except (List Mismatch) α → Except (List Mismatch) β → Except (List Mismatch) γ
  | .ok a, .ok b => .ok (f a b)
  | .error e, .ok _ => .error e
  | .ok _, .error e => .error e
  | .error e, .error e' => .error (e ++ e')

/-- The fields of a section, which may be left out but must be a mapping. -/
def fieldsOf (part : String) (sections : Entries) : Except (List Mismatch) Entries :=
  match Entries.field? sections part with
  | none => .ok []
  | some (.map fields) => .ok fields
  | some _ => .error [⟨[part], .notSection⟩]

/-- The settings that sections hold, or all mismatches in the order of the settings. -/
def ofEntries (sections : Entries) : Except (List Mismatch) Settings :=
  let output := do
    let fields ← fieldsOf SettingKey.format.part sections
    both (fun format indent => (format, indent))
      (coerceField .format Settings.default.format coerceFormat fields)
      (coerceField .indent Settings.default.indent coerceIndent fields)
  let timeout := do
    let fields ← fieldsOf SettingKey.timeout.part sections
    coerceField .timeout Settings.default.timeout coerceTimeout fields
  both (fun o t => ⟨o.1, o.2, t⟩) output timeout

end ApiContract.Settings
