import ApiContract.Yaml.Token

/-!
# Block scalars

Scalars of whole lines behind `|`, which keeps line ends, or `>`, which folds them.  The header
may give the indentation and say what happens to the line ends at the end of the scalar.
-/

namespace ApiContract.Yaml

/-- What happens to the line ends at the end of a block scalar. -/
inductive Chomping where
  | strip
  | clip
  | keep
  deriving DecidableEq, Repr

/-- The header of a block scalar. -/
structure BlockHeader where
  chomping : Chomping
  increment : Option Nat
  deriving DecidableEq, Repr

def chomping? (c : Char) : Option Chomping :=
  if c == '+' then some .keep else if c == '-' then some .strip else none

/-- An indentation digit; zero is none. -/
def incrementDigit (c : Cursor) : Except Fault (Scanned (Option Nat)) :=
  if c.head.isDigit then
    if c.head == '0' then malformed else .ok (some (c.head.toNat - 48), c.next)
  else .ok (none, c)

/-- The header behind the mark of a block scalar: chomping and indentation in either order. -/
def blockHeader (c : Cursor) : Except Fault (Scanned BlockHeader) := do
  let (header, stop) ← match chomping? c.head with
    | some chomping => do
        let (increment, stop) ← incrementDigit c.next
        pure (⟨chomping, increment⟩, stop)
    | none => do
        let (increment, stop) ← incrementDigit c
        match increment, chomping? stop.head with
        | some _, some chomping => pure (⟨chomping, increment⟩, stop.next)
        | _, _ => pure (⟨.clip, increment⟩, stop)
  if endsWord stop.head then .ok (header, stop) else malformed

/-- The rest of a line that holds nothing but a comment. -/
def ignoredLine (c : Cursor) : Except Fault Cursor :=
  let stop := c.skipSpaces.skipComment
  if endsLine stop.head then .ok stop.lineEnd.2 else malformed

/-- Moves past spaces up to a column. -/
def skipToColumn (column : Nat) (c : Cursor) : Cursor :=
  c.advance (min (c.run (· == ' ')).length (column - c.column))

/-- Empty lines, and the column of the first character behind them or of the longest of them. -/
def leadingBreaks : Nat → Cursor → (breaks : List Char) → (widest : Nat) → List Char × Nat × Cursor
  | 0, c, breaks, widest => (breaks, widest, c)
  | budget + 1, c, breaks, widest =>
      if c.head == ' ' then
        let behind := c.next
        leadingBreaks budget behind breaks (max widest behind.column)
      else if isBreak c.head then
        let (one, behind) := c.lineEnd
        leadingBreaks budget behind (breaks ++ one) widest
      else (breaks, widest, c)

/-- Empty lines in a scalar of known indentation. -/
def blockBreaks (indent : Nat) : Nat → Cursor → (breaks : List Char) → List Char × Cursor
  | 0, c, breaks => (breaks, c)
  | budget + 1, c, breaks =>
      let line := skipToColumn indent c
      if isBreak line.head then
        let (one, behind) := line.lineEnd
        blockBreaks indent budget behind (breaks ++ one)
      else (breaks, line)

/-- A block scalar that has been read: its text, the line end of its last line, and the empty
lines behind that. -/
structure BlockText where
  text : List Char
  lastEnd : List Char
  trailing : List Char
  stop : Cursor

/-- The lines of a block scalar.  `text` is what was read before, in reverse, `breaks` the empty
lines before the next line. -/
def blockLines (folded : Bool) (indent : Nat) : Nat → Cursor → (text lastEnd breaks : List Char) →
    BlockText
  | 0, c, text, lastEnd, breaks => ⟨text.reverse, lastEnd, breaks, c⟩
  | budget + 1, c, text, lastEnd, breaks =>
      if c.column ≠ indent || c.rest.isEmpty then ⟨text.reverse, lastEnd, breaks, c⟩
      else
        let line := c.run (!endsLine ·)
        let textWithLine := line.reverse ++ breaks.reverse ++ text
        let (thisEnd, behind) := (c.advance line.length).lineEnd
        let (nextBreaks, next) := blockBreaks indent (behind.rest.length + 1) behind []
        if next.column ≠ indent || next.rest.isEmpty then
          ⟨textWithLine.reverse, thisEnd, nextBreaks, next⟩
        else
          let joins := folded && thisEnd == ['\n'] && !isSpaceOrTab c.head &&
            !isSpaceOrTab next.head
          let joint := if joins then (if nextBreaks.isEmpty then [' '] else []) else thisEnd
          blockLines folded indent budget next (joint.reverse ++ textWithLine) thisEnd nextBreaks

/-- A block scalar in a block with the given indentation; the cursor stands at its mark. -/
def scanBlock (blockIndent : Int) (c : Cursor) : Except Fault (Scanned Token) := do
  let (header, behind) ← blockHeader c.next
  let first ← ignoredLine behind
  let least := max 1 (blockIndent + 1).toNat
  let budget := first.rest.length + 1
  let (indent, breaks, start) := match header.increment with
    | some n =>
        let indent := least + n - 1
        let (breaks, start) := blockBreaks indent budget first []
        (indent, breaks, start)
    | none =>
        let (breaks, widest, start) := leadingBreaks budget first [] 0
        (max least widest, breaks, start)
  let found := blockLines (c.head == '>') indent budget start [] [] breaks
  let tail := match header.chomping with
    | .strip => []
    | .clip => found.lastEnd
    | .keep => found.lastEnd ++ found.trailing
  .ok (.scalar (found.text ++ tail) false, found.stop)

end ApiContract.Yaml
