import ApiContract.Yaml.Token

/-!
# Plain scalars

Scalars without quotes.  A plain scalar ends at a colon before a blank, at a comment, at the end
of its block, and between brackets also at the marks that structure them.
-/

namespace ApiContract.Yaml

/-- Marks that end a plain scalar between brackets. -/
def isFlowMark (c : Char) : Bool :=
  c == ',' || c == '?' || c == '[' || c == ']' || c == '\x7b' || c == '\x7d'

/-- Marks behind a colon that make it a mapping mark between brackets. -/
def isFlowMarkBehindColon (c : Char) : Bool := isFlowMark c && c != '?'

/-- The leading characters of a plain scalar up to the next blank or mark. -/
def plainRun (inFlow : Bool) : List Char → List Char
  | [] => []
  | c :: rest =>
      let following := rest.headD endMark
      let stops := endsItem c || (inFlow && isFlowMark c) ||
        (c == ':' && (endsItem following || (inFlow && isFlowMarkBehindColon following)))
      if stops then [] else c :: plainRun inFlow rest

/-- Line ends and spaces between the lines of a plain scalar; `none` at a document marker. -/
def plainBreaks : Nat → Cursor → Option (List Char) × Cursor
  | 0, c => (some [], c)
  | budget + 1, c =>
      if c.head == ' ' then plainBreaks budget c.next
      else if isBreak c.head then
        let (first, line) := c.lineEnd
        if line.atMarker then (none, line)
        else
          let (others, stop) := plainBreaks budget line
          (others.map (first ++ ·), stop)
      else (some [], c)

/-- What stands between two runs of a plain scalar. -/
structure PlainGap where
  text : List Char
  stop : Cursor
  brokeLine : Bool

/-- The gap at a position; without text the scalar ends there. -/
def plainGap (c : Cursor) : PlainGap :=
  let spaces := c.run (· == ' ')
  let behind := c.advance spaces.length
  if isBreak behind.head then
    let (first, line) := behind.lineEnd
    if line.atMarker then ⟨[], line, true⟩
    else match plainBreaks line.rest.length line with
      | (some breaks, stop) => ⟨foldBreaks first breaks, stop, true⟩
      | (none, stop) => ⟨[], stop, true⟩
  else ⟨spaces, behind, false⟩

/-- A plain scalar, and whether a simple key may follow it: that is so when it ended behind a line
end. -/
structure PlainScalar where
  text : List Char
  stop : Cursor
  keyMayFollow : Bool

/-- The runs of a plain scalar, behind the text and the gap before them. -/
def plainText (inFlow : Bool) (indent : Int) : Nat → Cursor → (before gap : List Char) → Bool →
    PlainScalar
  | 0, c, before, _, keyMayFollow => ⟨before, c, keyMayFollow⟩
  | budget + 1, c, before, gap, keyMayFollow =>
      if c.head == '#' then ⟨before, c, keyMayFollow⟩
      else
        let piece := plainRun inFlow c.rest
        if piece.isEmpty then ⟨before, c, keyMayFollow⟩
        else
          let text := before ++ gap ++ piece
          let next := plainGap (c.advance piece.length)
          if next.text.isEmpty || next.stop.head == '#' ||
              (!inFlow && (next.stop.column : Int) < indent) then
            ⟨text, next.stop, next.brokeLine⟩
          else plainText inFlow indent budget next.stop text next.text next.brokeLine

/-- A plain scalar in a block with the given indentation. -/
def scanPlain (inFlow : Bool) (blockIndent : Int) (c : Cursor) : PlainScalar :=
  plainText inFlow (blockIndent + 1) (c.rest.length + 1) c [] [] false

end ApiContract.Yaml
