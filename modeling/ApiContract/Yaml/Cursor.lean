/-!
# A cursor over YAML text

Positions in a text with line and column, and the classes of characters that the grammar of YAML
tells apart.  The character `end` stands behind the last one; no accepted text holds it.
-/

namespace ApiContract.Yaml

/-- Why a text was not read: it is not well formed or not constructible, or it holds a number that
no value can hold. -/
inductive Fault where
  | malformed
  | unreadable
  deriving DecidableEq, Repr

/-- The character that is found behind the last one. -/
def endMark : Char := '\x00'

/-- Characters that end a line. -/
def isBreak (c : Char) : Bool :=
  c == '\n' || c == '\r' || c == '\x85' || c == '\u2028' || c == '\u2029'

def isSpaceOrTab (c : Char) : Bool := c == ' ' || c == '\t'

/-- Line ends and the end of the text. -/
def endsLine (c : Char) : Bool := c == endMark || isBreak c

/-- Space, line ends and the end of the text. -/
def endsWord (c : Char) : Bool := c == ' ' || endsLine c

/-- Space, tab, line ends and the end of the text. -/
def endsItem (c : Char) : Bool := c == '\t' || endsWord c

/-- Characters of a name: ASCII letters and digits, hyphen and underscore. -/
def isNameChar (c : Char) : Bool := c.isAlphanum || c == '-' || c == '_'

/-- Characters that a text may hold. -/
def isAdmitted (c : Char) : Bool :=
  c == '\t' || c == '\n' || c == '\r' || (0x20 ≤ c.toNat && c.toNat ≤ 0x7E) || c == '\x85' ||
    (0xA0 ≤ c.toNat && c.toNat ≤ 0xFFFD) || (0x10000 ≤ c.toNat && c.toNat < 0x10F800)

/-- The text that is left, and the position of its first character. -/
structure Cursor where
  rest : List Char
  index : Nat
  line : Nat
  column : Nat
  deriving DecidableEq, Repr

namespace Cursor

def ofText (text : List Char) : Cursor := ⟨text, 0, 0, 0⟩

/-- The character at a distance. -/
def peek (c : Cursor) (distance : Nat) : Char := c.rest.getD distance endMark

/-- The next character. -/
def head (c : Cursor) : Char := c.rest.headD endMark

/-- Whether a character before others ends a line; a carriage return before a line feed does
not. -/
def startsLine (ch : Char) (rest : List Char) : Bool :=
  if ch == '\r' then rest.head? != some '\n' else isBreak ch

/-- Moves past one character.  A byte order mark takes no column. -/
def next (c : Cursor) : Cursor :=
  match c.rest with
  | [] => c
  | ch :: rest =>
      if startsLine ch rest then ⟨rest, c.index + 1, c.line + 1, 0⟩
      else ⟨rest, c.index + 1, c.line, if ch == '\ufeff' then c.column else c.column + 1⟩

/-- Moves past several characters. -/
def advance (c : Cursor) : Nat → Cursor
  | 0 => c
  | n + 1 => c.next.advance n

/-- Moves past the leading characters of a class. -/
def skip (c : Cursor) (p : Char → Bool) : Cursor := c.advance (c.rest.takeWhile p).length

/-- The leading characters of a class. -/
def run (c : Cursor) (p : Char → Bool) : List Char := c.rest.takeWhile p

def skipSpaces (c : Cursor) : Cursor := c.skip (· == ' ')

/-- Moves past a comment, if one starts here. -/
def skipComment (c : Cursor) : Cursor :=
  if c.head == '#' then c.skip (!endsLine ·) else c

/-- A line end and what it stands for: the two wide separators stand for themselves, all others
for a line feed. -/
def lineEnd (c : Cursor) : List Char × Cursor :=
  match c.rest with
  | '\r' :: '\n' :: _ => (['\n'], c.advance 2)
  | ch :: _ =>
      if ch == '\r' || ch == '\n' || ch == '\x85' then (['\n'], c.next)
      else if ch == '\u2028' || ch == '\u2029' then ([ch], c.next)
      else ([], c)
  | [] => ([], c)

/-- Whether a document marker, `---` or `...`, stands here alone. -/
def atMarker (c : Cursor) : Bool :=
  (['-', '-', '-'].isPrefixOf c.rest || ['.', '.', '.'].isPrefixOf c.rest) && endsItem (c.peek 3)

end Cursor

/-- What follows a line end and the breaks after it: a single line end folds to a space, further
ones stand. -/
def foldBreaks (first breaks : List Char) : List Char :=
  if first ≠ ['\n'] then first ++ breaks
  else if breaks.isEmpty then [' '] else breaks

end ApiContract.Yaml
