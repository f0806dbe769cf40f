/-!
# Dates and times of the calendar

Dates of the proleptic Gregorian calendar from year 1 to 9999, and times of day with an optional
offset from universal time.  Two times with offsets are the same when they name the same instant,
whatever their offsets.
-/

namespace ApiContract

/-- A day of the calendar. -/
structure Date where
  year : Nat
  month : Nat
  day : Nat
  deriving DecidableEq, Repr, Inhabited

/-- A date, a time of day to the microsecond, and the offset from universal time in minutes. -/
structure Timestamp where
  date : Date
  hour : Nat
  minute : Nat
  second : Nat
  micro : Nat
  offset : Option Int
  deriving DecidableEq, Repr, Inhabited

namespace Date

def isLeapYear (year : Nat) : Bool :=
  year % 4 == 0 && (year % 100 != 0 || year % 400 == 0)

def daysInMonth (year month : Nat) : Nat :=
  match month with
  | 2 => if isLeapYear year then 29 else 28
  | 4 | 6 | 9 | 11 => 30
  | _ => 31

/-- A date, if the calendar has it. -/
def of? (year month day : Nat) : Option Date :=
  if 1 ≤ year && year ≤ 9999 && 1 ≤ month && month ≤ 12 && 1 ≤ day &&
      day ≤ daysInMonth year month then
    some ⟨year, month, day⟩
  else none

/-- Days of a year before the first of a month. -/
def daysBeforeMonth (year month : Nat) : Nat :=
  (List.range (month - 1)).foldl (fun days m => days + daysInMonth year (m + 1)) 0

/-- Days from the first day of year 1, which has number one. -/
def ordinal (d : Date) : Nat :=
  let y := d.year - 1
  y * 365 + y / 4 - y / 100 + y / 400 + daysBeforeMonth d.year d.month + d.day

end Date

namespace Timestamp

/-- A time, if the day has it and its offset is less than a day. -/
def of? (date : Date) (hour minute second micro : Nat) (offset : Option Int) : Option Timestamp :=
  if hour < 24 && minute < 60 && second < 60 && micro < 1000000 &&
      offset.all (fun m => -1440 < m && m < 1440) then
    some ⟨date, hour, minute, second, micro, offset⟩
  else none

/-- Microseconds from the start of the calendar on the clock that the time was read from. -/
def clock (t : Timestamp) : Int :=
  (((t.date.ordinal * 24 + t.hour) * 60 + t.minute) * 60 + t.second) * 1000000 + t.micro

/-- Whether two times name the same instant; a time without an offset names none that one with
an offset could name. -/
def same (a b : Timestamp) : Bool :=
  match a.offset, b.offset with
  | none, none => a.clock == b.clock
  | some x, some y => a.clock - x * 60000000 == b.clock - y * 60000000
  | _, _ => false

end Timestamp

/-! ## Text -/

/-- A number with at least the given number of digits. -/
def zeroPadded (width n : Nat) : String :=
  let digits := Nat.toDigits 10 n
  String.ofList (List.replicate (width - digits.length) '0' ++ digits)

/-- Year, month and day with hyphens. -/
def Date.iso (d : Date) : String :=
  zeroPadded 4 d.year ++ "-" ++ zeroPadded 2 d.month ++ "-" ++ zeroPadded 2 d.day

/-- An offset as hours and minutes with a sign. -/
def offsetText (minutes : Int) : String :=
  (if minutes < 0 then "-" else "+") ++ zeroPadded 2 (minutes.natAbs / 60) ++ ":" ++
    zeroPadded 2 (minutes.natAbs % 60)

/-- Date and time with the given mark between them; microseconds only when there are any. -/
def Timestamp.isoWith (mark : String) (t : Timestamp) : String :=
  t.date.iso ++ mark ++ zeroPadded 2 t.hour ++ ":" ++ zeroPadded 2 t.minute ++ ":" ++
    zeroPadded 2 t.second ++ (if t.micro = 0 then "" else "." ++ zeroPadded 6 t.micro) ++
    (t.offset.elim "" offsetText)

/-- Date and time with the mark `T` between them. -/
def Timestamp.iso : Timestamp → String := Timestamp.isoWith "T"

end ApiContract
