import ApiContract.Yaml.Token.Plain
import ApiContract.Yaml.Token.Property

/-!
# The tokens of a text

Tokens are read from left to right.  Two things are known late.  A mapping key without a mark is
seen to be one only at the colon behind it, so places where such a *simple key* may have started
are kept, and the key mark is put in front of the key when the colon comes.  The end of a block is
seen only at the first line that is indented less.

A simple key lies on one line and has at most 1024 characters.
-/

namespace ApiContract.Yaml

/-- A place where a simple key may have started.  It is required when the block admits nothing
else there. -/
structure PendingKey where
  level : Nat
  number : Nat
  required : Bool
  start : Cursor
  deriving Repr

/-- What has been read: the tokens, the last one first; the depth of brackets; the indentation of
the block, and of the blocks around it; whether a simple key may start here. -/
structure Stream where
  cursor : Cursor
  tokens : List Token
  count : Nat
  level : Nat
  indent : Int
  outer : List Int
  keyAllowed : Bool
  pending : List PendingKey
  deriving Repr

namespace Stream

def ofText (text : List Char) : Stream :=
  ⟨Cursor.ofText text, [], 0, 0, -1, [], true, []⟩

def inFlow (s : Stream) : Bool := s.level != 0

/-- Adds a token behind the others. -/
def push (s : Stream) (t : Token) : Stream :=
  { s with tokens := t :: s.tokens, count := s.count + 1 }

/-- Adds a token in front of the one with a number. -/
def insertAt (s : Stream) (number : Nat) (t : Token) : Stream :=
  let behind := s.count - number
  { s with tokens := s.tokens.take behind ++ t :: s.tokens.drop behind, count := s.count + 1 }

/-- The longest simple key. -/
def keyLimit : Nat := 1024

/-- Whether what starts at a place can no longer be a simple key. -/
def isStale (s : Stream) (key : PendingKey) : Bool :=
  key.start.line != s.cursor.line || keyLimit < s.cursor.index - key.start.index

/-- Gives up the places that can no longer be keys. -/
def dropStale (s : Stream) : Except Fault Stream :=
  if s.pending.any fun key => s.isStale key && key.required then malformed
  else .ok { s with pending := s.pending.filter (!s.isStale ·) }

/-- Gives up the place at the current depth. -/
def forgetKey (s : Stream) : Except Fault Stream :=
  if s.pending.any fun key => key.level == s.level && key.required then malformed
  else .ok { s with pending := s.pending.filter (·.level != s.level) }

/-- Keeps the cursor as a place where a simple key may start. -/
def saveKey (s : Stream) : Except Fault Stream :=
  if s.keyAllowed then do
    let free ← s.forgetKey
    let required := s.level == 0 && s.indent == s.cursor.column
    .ok { free with pending := ⟨s.level, s.count, required, s.cursor⟩ :: free.pending }
  else .ok s

/-- Ends the blocks that are indented more than a column. -/
def unwindBlocks (column : Int) : Stream → List Int → Stream
  | s, [] => { s with outer := [] }
  | s, indent :: outer =>
      if column < s.indent then unwindBlocks column ({ s with indent }.push .blockEnd) outer
      else { s with outer := indent :: outer }

/-- Ends blocks, unless the cursor is between brackets. -/
def unwind (s : Stream) (column : Int) : Stream :=
  if s.inFlow then s else unwindBlocks column s s.outer

/-- Starts a block at a column if it is indented more than the current one. -/
def openBlock (s : Stream) (column : Nat) (start : Token) (number : Nat) : Stream :=
  if s.indent < (column : Int) then
    { s with indent := column, outer := s.indent :: s.outer }.insertAt number start
  else s

/-- Moves past blanks, comments and line ends.  Outside brackets a simple key may start on a new
line. -/
def skipIgnored : Nat → Stream → Stream
  | 0, s => s
  | budget + 1, s =>
      let stop := s.cursor.skipSpaces.skipComment
      if isBreak stop.head then
        skipIgnored budget
          { s with cursor := stop.lineEnd.2, keyAllowed := s.keyAllowed || !s.inFlow }
      else { s with cursor := stop }

/-- Moves past a byte order mark at the start of the text, and past what is ignored. -/
def skipToToken (s : Stream) : Stream :=
  let start := if s.cursor.index == 0 && s.cursor.head == '\ufeff' then s.cursor.next else s.cursor
  skipIgnored (start.rest.length + 1) { s with cursor := start }

/-! ## Single tokens -/

/-- Moves past the mark of a token and adds the token. -/
def take (s : Stream) (length : Nat) (t : Token) : Stream :=
  { s with cursor := s.cursor.advance length }.push t

/-- A directive or a document marker ends all blocks; no key may start behind it on its line. -/
def endDocument (s : Stream) : Except Fault Stream := do
  let free ← (s.unwind (-1)).forgetKey
  .ok { free with keyAllowed := false }

def takeDirective (s : Stream) : Except Fault Stream := do
  let ended ← s.endDocument
  let (t, stop) ← scanDirective ended.cursor
  .ok ({ ended with cursor := stop }.push t)

def takeOpening (s : Stream) (t : Token) : Except Fault Stream := do
  let saved ← s.saveKey
  .ok ({ saved with level := saved.level + 1, keyAllowed := true }.take 1 t)

/-- A closing bracket; one that nothing was opened for is malformed. -/
def takeClosing (s : Stream) (t : Token) : Except Fault Stream := do
  let free ← s.forgetKey
  if free.level = 0 then malformed
  else .ok ({ free with level := free.level - 1, keyAllowed := false }.take 1 t)

def takeFlowEntry (s : Stream) : Except Fault Stream := do
  let free ← { s with keyAllowed := true }.forgetKey
  .ok (free.take 1 .flowEntry)

def takeBlockEntry (s : Stream) : Except Fault Stream := do
  if !s.inFlow && !s.keyAllowed then malformed
  else
    let opened := if s.inFlow then s else s.openBlock s.cursor.column .blockSequenceStart s.count
    let free ← { opened with keyAllowed := true }.forgetKey
    .ok (free.take 1 .blockEntry)

def takeKey (s : Stream) : Except Fault Stream := do
  if !s.inFlow && !s.keyAllowed then malformed
  else
    let opened := if s.inFlow then s else s.openBlock s.cursor.column .blockMappingStart s.count
    let free ← { opened with keyAllowed := !s.inFlow }.forgetKey
    .ok (free.take 1 .key)

/-- A value mark.  What stood at a kept place of this depth turns out to be a key. -/
def takeValue (s : Stream) : Except Fault Stream := do
  match s.pending.find? (·.level == s.level) with
  | some key =>
      let free := { s with pending := s.pending.filter (·.level != s.level) }
      let keyed := free.insertAt key.number .key
      let opened := if s.inFlow then keyed
        else keyed.openBlock key.start.column .blockMappingStart key.number
      .ok ({ opened with keyAllowed := false }.take 1 .value)
  | none =>
      if !s.inFlow && !s.keyAllowed then malformed
      else
        let opened :=
          if s.inFlow then s else s.openBlock s.cursor.column .blockMappingStart s.count
        let free ← { opened with keyAllowed := !s.inFlow }.forgetKey
        .ok (free.take 1 .value)

/-- A token that can be, or can start, a simple key. -/
def takeNode (s : Stream) (scan : Cursor → Except Fault (Scanned Token)) :
    Except Fault Stream := do
  let saved ← s.saveKey
  let (t, stop) ← scan saved.cursor
  .ok ({ saved with cursor := stop, keyAllowed := false }.push t)

def takeBlockScalar (s : Stream) : Except Fault Stream := do
  let free ← { s with keyAllowed := true }.forgetKey
  let (t, stop) ← scanBlock free.indent free.cursor
  .ok ({ free with cursor := stop }.push t)

def takePlain (s : Stream) : Except Fault Stream := do
  let saved ← s.saveKey
  let found := scanPlain saved.inFlow saved.indent saved.cursor
  .ok ({ saved with cursor := found.stop, keyAllowed := found.keyMayFollow }.push
    (.scalar found.text true))

/-- Marks that no plain scalar starts with. -/
def isIndicator (c : Char) : Bool :=
  "-?:,[]\x7b\x7d#&*!|>'\"%@\x60".toList.contains c

/-- Whether a plain scalar starts at the cursor. -/
def startsPlain (s : Stream) : Bool :=
  let c := s.cursor.head
  (!endsItem c && !isIndicator c) ||
    (!endsItem (s.cursor.peek 1) && (c == '-' || (!s.inFlow && (c == '?' || c == ':'))))

/-- Reads the next token behind what is ignored; `none` at the end of the text. -/
def takeToken (s : Stream) : Except Fault (Option Stream) := do
  let c := s.cursor.head
  let behind := s.cursor.peek 1
  let atLineStart := s.cursor.column == 0
  if s.cursor.rest.isEmpty then .ok none
  else if c == '%' && atLineStart then some <$> s.takeDirective
  else if c == '-' && atLineStart && s.cursor.atMarker then
    (fun e => some (e.take 3 .documentStart)) <$> s.endDocument
  else if c == '.' && atLineStart && s.cursor.atMarker then
    (fun e => some (e.take 3 .documentEnd)) <$> s.endDocument
  else if c == '[' then some <$> s.takeOpening .flowSequenceStart
  else if c == '\x7b' then some <$> s.takeOpening .flowMappingStart
  else if c == ']' then some <$> s.takeClosing .flowSequenceEnd
  else if c == '\x7d' then some <$> s.takeClosing .flowMappingEnd
  else if c == ',' then some <$> s.takeFlowEntry
  else if c == '-' && endsItem behind then some <$> s.takeBlockEntry
  else if c == '?' && (s.inFlow || endsItem behind) then some <$> s.takeKey
  else if c == ':' && (s.inFlow || endsItem behind) then some <$> s.takeValue
  else if c == '*' then some <$> s.takeNode fun c => do
    let (name, stop) ← scanAnchorName c
    .ok (.alias name, stop)
  else if c == '&' then some <$> s.takeNode fun c => do
    let (name, stop) ← scanAnchorName c
    .ok (.anchor name, stop)
  else if c == '!' then some <$> s.takeNode scanTag
  else if (c == '|' || c == '>') && !s.inFlow then some <$> s.takeBlockScalar
  else if c == '\'' || c == '"' then some <$> s.takeNode scanQuoted
  else if s.startsPlain then some <$> s.takePlain
  else malformed

/-- Moves to the next token and reads it; at the end of the text all blocks end. -/
def fetch (s : Stream) : Except Fault (Stream × Bool) := do
  let current ← s.skipToToken.dropStale
  let unwound := current.unwind current.cursor.column
  match ← unwound.takeToken with
  | some next => .ok (next, false)
  | none => do
      let free ← (unwound.unwind (-1)).forgetKey
      .ok (free.push .streamEnd, true)

/-- The tokens before a fault.  A reader asks for more text before it takes a token that may turn
out to be a key, so it meets the fault there. -/
def brokenOff (s : Stream) (f : Fault) : List Token :=
  let open_ := s.pending.filter (!s.isStale ·)
  let known := open_.foldl (fun n key => min n key.number) s.count
  s.tokens.reverse.take known ++ [.fault f]

/-- Reads tokens up to the end of the text or a fault. -/
def fetchAll : Nat → Stream → List Token
  | 0, s => s.brokenOff .malformed
  | budget + 1, s =>
      match s.fetch with
      | .error f => s.brokenOff f
      | .ok (next, true) => next.tokens.reverse
      | .ok (next, false) => fetchAll budget next

end Stream

/-- The tokens of a text. -/
def tokens (text : List Char) : List Token :=
  Stream.fetchAll (text.length + 2) (Stream.ofText text)

end ApiContract.Yaml
