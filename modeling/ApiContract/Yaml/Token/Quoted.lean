import ApiContract.Text.Digit
import ApiContract.Text.Surrogate
import ApiContract.Yaml.Token

/-!
# Quoted scalars

Scalars between apostrophes, where a doubled apostrophe stands for one, and between double quotes,
where a backslash starts an escape.  Line ends inside are folded.
-/

namespace ApiContract.Yaml

/-- The character that a one-letter escape stands for. -/
def letterEscape? (c : Char) : Option Char :=
  match c with
  | '0' => some '\x00'
  | 'a' => some '\x07'
  | 'b' => some '\x08'
  | 't' => some '\t'
  | '\t' => some '\t'
  | 'n' => some '\n'
  | 'v' => some '\x0b'
  | 'f' => some '\x0c'
  | 'r' => some '\r'
  | 'e' => some '\x1b'
  | ' ' => some ' '
  | '"' => some '"'
  | '\\' => some '\\'
  | '/' => some '/'
  | 'N' => some '\x85'
  | '_' => some '\xa0'
  | 'L' => some '\u2028'
  | 'P' => some '\u2029'
  | _ => none

/-- The number of digits behind an escape that gives a code point. -/
def escapeWidth? (c : Char) : Option Nat :=
  match c with
  | 'x' => some 2
  | 'u' => some 4
  | 'U' => some 8
  | _ => none

/-- The number that digits in base sixteen stand for. -/
def hexNumber? (digits : List Char) : Option Nat :=
  digits.foldl (fun acc c => do some (16 * (← acc) + (← Text.hexValue? c))) (some 0)

/-- The character of a code point given by its digits. -/
def codePoint (width : Nat) (c : Cursor) : Except Fault (Scanned Char) :=
  let digits := c.rest.take width
  match hexNumber? digits with
  | none => malformed
  | some code =>
      if digits.length < width then malformed
      else if 0x10FFFF < code then .error .unreadable
      else .ok (if code ≤ 0xFFFF then Text.ofUnit code else Char.ofNat code, c.advance width)

/-- Line ends with blanks before them; a document marker must not stand at the start of a line. -/
def quotedBreaks : Nat → Cursor → Except Fault (Scanned (List Char))
  | 0, c => .ok ([], c)
  | budget + 1, c =>
      if c.atMarker then malformed
      else
        let line := c.skip isSpaceOrTab
        if isBreak line.head then do
          let (first, behind) := line.lineEnd
          let (others, stop) ← quotedBreaks budget behind
          .ok (first ++ others, stop)
        else .ok ([], line)

/-- What an escape behind a backslash stands for. -/
def escaped (budget : Nat) (c : Cursor) : Except Fault (Scanned (List Char)) :=
  match letterEscape? c.head with
  | some ch => .ok ([ch], c.next)
  | none => match escapeWidth? c.head with
    | some width => (codePoint width c.next).map fun (ch, stop) => ([ch], stop)
    | none =>
        if isBreak c.head then quotedBreaks budget c.lineEnd.2
        else malformed

/-- Blanks inside a quoted scalar: they stand for themselves, or are folded with the line ends
behind them. -/
def quotedBlanks (budget : Nat) (c : Cursor) : Except Fault (Scanned (List Char)) :=
  let blanks := c.run isSpaceOrTab
  let behind := c.advance blanks.length
  if behind.rest.isEmpty then malformed
  else if isBreak behind.head then do
    let (first, line) := behind.lineEnd
    let (others, stop) ← quotedBreaks budget line
    .ok (foldBreaks first others, stop)
  else .ok (blanks, behind)

/-- The text of a quoted scalar up to its closing quote, behind the text that was read before (in
reverse). -/
def quotedText (double : Bool) : Nat → Cursor → List Char → Except Fault (Scanned (List Char))
  | 0, _, _ => malformed
  | budget + 1, c, before =>
      match c.rest with
      | [] => malformed
      | ch :: _ =>
          if !double && ch == '\'' && c.peek 1 == '\'' then
            quotedText double budget (c.advance 2) ('\'' :: before)
          else if ch == (if double then '"' else '\'') then .ok (before.reverse, c.next)
          else if double && ch == '\\' then do
            let (piece, stop) ← escaped budget c.next
            quotedText double budget stop (piece.reverse ++ before)
          else if isSpaceOrTab ch || isBreak ch then do
            let (piece, stop) ← quotedBlanks budget c
            quotedText double budget stop (piece.reverse ++ before)
          else quotedText double budget c.next (ch :: before)

/-- A quoted scalar; the cursor stands at its opening quote. -/
def scanQuoted (c : Cursor) : Except Fault (Scanned Token) := do
  let (text, stop) ← quotedText (c.head == '"') (c.rest.length + 1) c.next []
  .ok (.scalar text false, stop)

end ApiContract.Yaml
