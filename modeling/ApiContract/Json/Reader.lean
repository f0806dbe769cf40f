import ApiContract.Json.Fault
import ApiContract.Text.Numeral
import ApiContract.Text.Surrogate
import ApiContract.Value

/-!
# Reading JSON

A reader for JSON texts that keeps the order of entries and the difference between whole numbers
and fractions.  Beyond the standard it accepts `NaN`, `Infinity` and `-Infinity`.  Of entries with
the same name the last one counts, at the place of the first.

The reader descends into values with a budget of one step per character, which no text exceeds.
-/

namespace ApiContract.Json

/-- What is left of a text, and how many characters came before. -/
structure Cursor where
  rest : List Char
  position : Nat
  deriving DecidableEq, Repr

/-- What was read, and what is left of the text. -/
abbrev Reading (α : Type) := α × Cursor

def fail {α : Type} (flaw : Flaw) (position : Nat) : Except Fault α :=
  .error (.malformed flaw position)

/-- Space, tab, line feed and carriage return. -/
def isBlank (c : Char) : Bool :=
  c == ' ' || c == '\t' || c == '\n' || c == '\r'

/-- Moves past the leading characters of a class. -/
def Cursor.skip (isSkipped : Char → Bool) (c : Cursor) : Cursor :=
  ⟨c.rest.dropWhile isSkipped, c.position + (c.rest.takeWhile isSkipped).length⟩

def Cursor.skipBlanks (c : Cursor) : Cursor := c.skip isBlank

def Cursor.advance (c : Cursor) (n : Nat) : Cursor := ⟨c.rest.drop n, c.position + n⟩

/-! ## Strings -/

/-- A part of a string: a character that stands for itself or a unit given by number. -/
inductive Piece where
  | char (c : Char)
  | unit (code : Nat)
  deriving DecidableEq, Repr

/-- Joins the units of surrogate pairs; a lone surrogate is carried by its stand-in. -/
def joinPieces : List Piece → List Char
  | [] => []
  | .char c :: rest => c :: joinPieces rest
  | .unit high :: .unit low :: rest =>
      if Text.isHighSurrogate high && Text.isLowSurrogate low then
        Text.ofPair high low :: joinPieces rest
      else Text.ofUnit high :: joinPieces (.unit low :: rest)
  | .unit code :: rest => Text.ofUnit code :: joinPieces rest

/-- Where a string reader stands: between characters, behind a backslash, or inside the digits of
a unit whose mark stood at a position. -/
inductive StringMode where
  | plain
  | escape
  | unit (digitsLeft code mark : Nat)
  deriving DecidableEq, Repr

/-- The character that a one-letter escape stands for. -/
def shortEscape? (c : Char) : Option Char :=
  match c with
  | '"' => some '"'
  | '\\' => some '\\'
  | '/' => some '/'
  | 'b' => some '\x08'
  | 'f' => some '\x0c'
  | 'n' => some '\n'
  | 'r' => some '\r'
  | 't' => some '\t'
  | _ => none

/-- The pieces of a string up to its closing quote.  `start` is the position of the opening
quote. -/
def readPieces (start : Nat) :
    StringMode → List Char → Nat → List Piece → Except Fault (Reading (List Piece))
  | _, [], _, _ => fail .openString start
  | .plain, c :: rest, position, pieces =>
      if c == '"' then .ok (pieces.reverse, ⟨rest, position + 1⟩)
      else if c == '\\' then readPieces start .escape rest (position + 1) pieces
      else if c.toNat < 0x20 then fail .controlCharacter position
      else readPieces start .plain rest (position + 1) (.char c :: pieces)
  | .escape, c :: rest, position, pieces =>
      if c == 'u' then
        if (rest.drop 4).isEmpty then fail .badUnicodeEscape position
        else readPieces start (.unit 4 0 position) rest (position + 1) pieces
      else match shortEscape? c with
        | some plain => readPieces start .plain rest (position + 1) (.char plain :: pieces)
        | none => fail .badEscape (position - 1)
  | .unit digitsLeft code mark, c :: rest, position, pieces =>
      match Text.hexValue? c with
      | none => fail .badUnicodeEscape mark
      | some d =>
          if digitsLeft ≤ 1 then
            readPieces start .plain rest (position + 1) (.unit (16 * code + d) :: pieces)
          else
            readPieces start (.unit (digitsLeft - 1) (16 * code + d) mark) rest (position + 1) pieces

/-- A string; the cursor stands behind its opening quote. -/
def readString (c : Cursor) : Except Fault (Reading String) := do
  let (pieces, rest) ← readPieces (c.position - 1) .plain c.rest c.position []
  .ok (String.ofList (joinPieces pieces), rest)

/-! ## Numbers -/

/-- Length of the fraction at the head of a text: a point with at least one digit. -/
def fractionLength : List Char → Nat
  | '.' :: rest =>
      let digits := (rest.takeWhile (·.isDigit)).length
      if digits = 0 then 0 else digits + 1
  | _ => 0

/-- Length of the exponent at the head of a text: a mark, a sign, at least one digit. -/
def exponentLength : List Char → Nat
  | mark :: rest =>
      if mark == 'e' || mark == 'E' then
        let signLength := match rest with
          | '+' :: _ => 1
          | '-' :: _ => 1
          | _ => 0
        let digits := ((rest.drop signLength).takeWhile (·.isDigit)).length
        if digits = 0 then 0 else 1 + signLength + digits
      else 0
  | [] => 0

/-- Length of the whole part: zero alone, or digits that do not start with zero. -/
def wholeLength : List Char → Nat
  | '0' :: _ => 1
  | cs => (cs.takeWhile (·.isDigit)).length

/-- A number.  It is a fraction when it has a point or an exponent. -/
def readNumber (c : Cursor) : Except Fault (Reading Value) :=
  let (negative, unsigned) := match c.rest with
    | '-' :: rest => (true, rest)
    | rest => (false, rest)
  let whole := wholeLength unsigned
  if whole = 0 then fail .noValue c.position
  else
    let fraction := fractionLength (unsigned.drop whole)
    let exponent := exponentLength (unsigned.drop (whole + fraction))
    let next := c.advance ((if negative then 1 else 0) + whole + fraction + exponent)
    let text := unsigned.take (whole + fraction + exponent)
    if fraction = 0 && exponent = 0 then
      if Text.digitLimit < whole then .error .oversizedNumber
      else
        let n := (Text.digitsValue? 10 text).getD 0
        .ok (.int (if negative then -(n : Int) else n), next)
    else
      let parts := (Text.decimalParts? text).getD (0, 0)
      .ok (.float (.ofDecimal negative parts.1 parts.2), next)

/-! ## Values -/

/-- Words that stand for values. -/
def words : List (List Char × Value) :=
  [("null".toList, .null), ("true".toList, .bool true), ("false".toList, .bool false),
    ("NaN".toList, .float .nan), ("Infinity".toList, .float (.infinity false)),
    ("-Infinity".toList, .float (.infinity true))]

mutual

/-- A value at the head of a text. -/
def readValue : Nat → Cursor → Except Fault (Reading Value)
  | 0, c => fail .noValue c.position
  | budget + 1, c =>
      match c.rest with
      | '"' :: _ => do
          let (s, rest) ← readString (c.advance 1)
          .ok (.str s, rest)
      | '[' :: _ =>
          let inside := (c.advance 1).skipBlanks
          if inside.rest.head? = some ']' then .ok (.list [], inside.advance 1)
          else readItems budget inside []
      | '\x7b' :: _ =>
          let inside := (c.advance 1).skipBlanks
          if inside.rest.head? = some '\x7d' then .ok (.map [], inside.advance 1)
          else readEntries budget inside []
      | rest =>
          match words.find? fun word => word.1.isPrefixOf rest with
          | some word => .ok (word.2, c.advance word.1.length)
          | none => readNumber c

/-- The items of a list up to its closing bracket, after the ones read before. -/
def readItems : Nat → Cursor → List Value → Except Fault (Reading Value)
  | 0, c, _ => fail .noValue c.position
  | budget + 1, c, before => do
      let (v, rest) ← readValue budget c
      let next := rest.skipBlanks
      match next.rest with
      | ']' :: _ => .ok (.list (v :: before).reverse, next.advance 1)
      | ',' :: _ => readItems budget (next.advance 1).skipBlanks (v :: before)
      | _ => fail .noComma next.position

/-- The entries of a mapping up to its closing brace, after the ones read before. -/
def readEntries : Nat → Cursor → List (Value × Value) → Except Fault (Reading Value)
  | 0, c, _ => fail .noName c.position
  | budget + 1, c, before =>
      match c.rest with
      | '"' :: _ => do
          let (name, rest) ← readString (c.advance 1)
          let colon := rest.skipBlanks
          match colon.rest with
          | ':' :: _ =>
              let (v, rest) ← readValue budget (colon.advance 1).skipBlanks
              let next := rest.skipBlanks
              match next.rest with
              | '\x7d' :: _ =>
                  .ok (.map (Entries.ofList ((.str name, v) :: before).reverse), next.advance 1)
              | ',' :: _ =>
                  readEntries budget (next.advance 1).skipBlanks ((.str name, v) :: before)
              | _ => fail .noComma next.position
          | _ => fail .noColon colon.position
      | _ => fail .noName c.position

end

/-- The value of a JSON text. -/
def read (text : List Char) : Except Fault Value :=
  if text.head? = some '\ufeff' then fail .byteOrderMark 0
  else do
    let (v, rest) ← readValue (text.length + 1) (Cursor.skipBlanks ⟨text, 0⟩)
    let stop := rest.skipBlanks
    if stop.rest.isEmpty then .ok v else fail .extraData stop.position

end ApiContract.Json
