import ApiContract.Binary64.Shortest
import ApiContract.Text.Numeral
import ApiContract.Text.Surrogate
import ApiContract.Value

/-!
# Writing JSON

The text of a value, on one line or over several.  Characters beyond ASCII stand for themselves.
`Value.isJson` says which values have a text: dates, times, bytes and sets have none, neither as
values nor as keys, and neither has a whole number with too many digits.  A key that is a number
or a word is written as the text of that number or word.
-/

namespace ApiContract.Json

/-- The escape of a character inside a string. -/
def escapeChar (c : Char) : List Char :=
  if c == '"' then ['\\', '"']
  else if c == '\\' then ['\\', '\\']
  else if c == '\n' then ['\\', 'n']
  else if c == '\r' then ['\\', 'r']
  else if c == '\t' then ['\\', 't']
  else if c == '\x0c' then ['\\', 'f']
  else if c == '\x08' then ['\\', 'b']
  else if c.toNat < 0x20 then '\\' :: 'u' :: Text.hexDigits 4 c.toNat
  else [c]

/-- A string with its quotes. -/
def stringText (s : String) : String :=
  String.ofList ('"' :: s.toList.flatMap escapeChar ++ ['"'])

/-- A number in JSON, with words for what is not finite. -/
def numberText : Binary64 → String := Binary64.textWith "NaN" "Infinity"

/-- Whether a whole number has few enough digits to be written. -/
def isWritableInt (n : Int) : Bool := n.natAbs < Nat.pow 10 Text.digitLimit

/-- The name that a key is written as. -/
def keyName? : Value → Option String
  | .null => some "null"
  | .bool b => some (if b then "true" else "false")
  | .int n => if isWritableInt n then some (toString n) else none
  | .float x => some (numberText x)
  | .str s => some s
  | _ => none

end ApiContract.Json

namespace ApiContract.Value

mutual

/-- Whether a value has a JSON text. -/
def isJson : Value → Bool
  | .null | .bool _ | .float _ | .str _ => true
  | .int n => Json.isWritableInt n
  | .list xs => areJson xs
  | .map es => entriesAreJson es
  | .pair a b => a.isJson && b.isJson
  | _ => false

def areJson : List Value → Bool
  | [] => true
  | x :: xs => x.isJson && areJson xs

def entriesAreJson : List (Value × Value) → Bool
  | [] => true
  | (k, v) :: es => (Json.keyName? k).isSome && v.isJson && entriesAreJson es

end

end ApiContract.Value

namespace ApiContract.Json

/-- How the parts of a collection are laid out: on one line, or each on a line of its own. -/
inductive Layout where
  | line
  | block (indent : Nat)
  deriving DecidableEq, Repr

/-- The layout of an indentation: none is a single line, and less than none is lines without
indentation. -/
def Layout.ofIndent (indent : Int) : Layout :=
  if indent = 0 then .line else .block indent.toNat

/-- What stands before a part at a depth: nothing on one line, else a line break and the
indentation. -/
def lineBreak (depth : Nat) : Layout → String
  | .line => ""
  | .block indent => "\n" ++ String.ofList (List.replicate (indent * depth) ' ')

/-- The mark between two parts of a collection. -/
def separator (depth : Nat) : Layout → String
  | .line => ", "
  | .block indent => "," ++ lineBreak depth (.block indent)

/-- Parts between brackets; nothing stands between the brackets of an empty collection. -/
def bracketed (opening closing : String) (layout : Layout) (depth : Nat) (parts : List String) :
    String :=
  if parts.isEmpty then opening ++ closing
  else opening ++ lineBreak (depth + 1) layout ++
    String.intercalate (separator (depth + 1) layout) parts ++ lineBreak depth layout ++ closing

mutual

/-- The text of a value at a depth.  What has no text is left empty. -/
def render (layout : Layout) (depth : Nat) : Value → String
  | .null => "null"
  | .bool b => if b then "true" else "false"
  | .int n => toString n
  | .float x => numberText x
  | .str s => stringText s
  | .list xs => bracketed "[" "]" layout depth (renderItems layout (depth + 1) xs)
  | .map es => bracketed "\x7b" "\x7d" layout depth (renderEntries layout (depth + 1) es)
  | .pair a b =>
      bracketed "[" "]" layout depth [render layout (depth + 1) a, render layout (depth + 1) b]
  | _ => ""

def renderItems (layout : Layout) (depth : Nat) : List Value → List String
  | [] => []
  | x :: xs => render layout depth x :: renderItems layout depth xs

def renderEntries (layout : Layout) (depth : Nat) : List (Value × Value) → List String
  | [] => []
  | (k, v) :: es =>
      (stringText ((keyName? k).getD "") ++ ": " ++ render layout depth v) ::
        renderEntries layout depth es

end

/-- The widest indentation that a text can be written with. -/
def indentLimit : Nat := Nat.pow 2 31

/-- Whether a layout can be written. -/
def Layout.isWritable : Layout → Bool
  | .line => true
  | .block indent => indent < indentLimit

/-- The text of a value, if it has one. -/
def write? (layout : Layout) (v : Value) : Option String :=
  if v.isJson && layout.isWritable then some (render layout 0 v) else none

end ApiContract.Json
