import ApiContract.Binary64.Shortest
import ApiContract.Json.Writer
import ApiContract.Text.Quoted
import ApiContract.Value

/-!
# Values in messages

`Value.shown` is how a value stands inside another text: a text is shown bare, a date in its ISO
form.  `Value.quoted` is the unambiguous form: a text in quotes, collections in brackets with
every part quoted.  The shown form of a collection is its quoted form.

`Value.isQuotable` says which values can stand in a message at all: a whole number with too many
digits cannot, and neither can a collection that holds one.
-/

namespace ApiContract.Value

/-- Texts joined by a comma and a space. -/
def commaJoined (parts : List String) : String :=
  String.intercalate ", " parts

/-- An offset as a duration: a negative one counts back from whole days. -/
def durationText (minutes : Int) : String :=
  let days := Int.fdiv minutes 1440
  let seconds := Int.fmod minutes 1440 * 60
  let parts := (if days = 0 then [] else ["days=" ++ toString days]) ++
    (if seconds = 0 then [] else ["seconds=" ++ toString seconds])
  "datetime.timedelta(" ++ commaJoined parts ++ ")"

/-- The constructor form of a date. -/
def quotedDate (d : Date) : String :=
  s!"datetime.date({d.year}, {d.month}, {d.day})"

/-- The constructor form of a time; seconds and microseconds only when they are not zero. -/
def quotedTime (t : Timestamp) : String :=
  let clock := [t.date.year, t.date.month, t.date.day, t.hour, t.minute].map toString
  let tail :=
    if t.micro ≠ 0 then [toString t.second, toString t.micro]
    else if t.second ≠ 0 then [toString t.second]
    else []
  let zone := match t.offset with
    | none => []
    | some m =>
        if m = 0 then ["tzinfo=datetime.timezone.utc"]
        else ["tzinfo=datetime.timezone(" ++ durationText m ++ ")"]
  "datetime.datetime(" ++ commaJoined (clock ++ tail ++ zone) ++ ")"

mutual

/-- The unambiguous form of a value. -/
def quoted : Value → String
  | .null => "None"
  | .bool b => if b then "True" else "False"
  | .int n => toString n
  | .float x => x.text
  | .str s => Text.quoted s
  | .list xs => "[" ++ commaJoined (quotedItems xs) ++ "]"
  | .map es => "\x7b" ++ commaJoined (quotedEntries es) ++ "\x7d"
  | .date d => quotedDate d
  | .time t => quotedTime t
  | .bytes bs => Text.quotedBytes bs
  | .set [] => "set()"
  | .set (x :: xs) => "\x7b" ++ commaJoined (quoted x :: quotedItems xs) ++ "\x7d"
  | .pair a b => "(" ++ quoted a ++ ", " ++ quoted b ++ ")"

def quotedItems : List Value → List String
  | [] => []
  | x :: xs => quoted x :: quotedItems xs

def quotedEntries : List (Value × Value) → List String
  | [] => []
  | (k, v) :: es => (quoted k ++ ": " ++ quoted v) :: quotedEntries es

end

mutual

/-- Whether a value can stand in a message. -/
def isQuotable : Value → Bool
  | .int n => Json.isWritableInt n
  | .list xs => areQuotable xs
  | .map es => entriesAreQuotable es
  | .set xs => areQuotable xs
  | .pair a b => a.isQuotable && b.isQuotable
  | _ => true

def areQuotable : List Value → Bool
  | [] => true
  | x :: xs => x.isQuotable && areQuotable xs

def entriesAreQuotable : List (Value × Value) → Bool
  | [] => true
  | (k, v) :: es => k.isQuotable && v.isQuotable && entriesAreQuotable es

end

/-- A value as it stands inside another text. -/
def shown : Value → String
  | .str s => s
  | .date d => d.iso
  | .time t => t.isoWith " "
  | v => quoted v

@[simp] theorem shown_str (s : String) : (Value.str s).shown = s := rfl

end ApiContract.Value
