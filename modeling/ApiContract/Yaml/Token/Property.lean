import ApiContract.Text.Numeral
import ApiContract.Yaml.Token.Block
import ApiContract.Yaml.Token.Quoted

/-!
# Directives, anchors and tags

The marks that say something about a document or a node: directives at the head of a document,
anchors and aliases by which nodes are named and used again, and tags that give nodes a type.
-/

namespace ApiContract.Yaml

/-- A name of at least one character. -/
def scanName (c : Cursor) : Except Fault (Scanned (List Char)) :=
  let name := c.run isNameChar
  if name.isEmpty then malformed else .ok (name, c.advance name.length)

/-- The number of a version. -/
def scanVersionNumber (c : Cursor) : Except Fault (Scanned Nat) :=
  let digits := c.run (·.isDigit)
  match Text.digitsValue? 10 digits with
  | none => malformed
  | some n =>
      if Text.digitLimit < digits.length then .error .unreadable
      else .ok (n, c.advance digits.length)

/-- Bytes written as percent escapes. -/
def percentBytes : Nat → Cursor → Except Fault (Scanned (List UInt8))
  | 0, c => .ok ([], c)
  | budget + 1, c =>
      if c.head == '%' then
        let digits := c.next.rest.take 2
        match hexNumber? digits with
        | none => malformed
        | some b =>
            if digits.length < 2 then malformed
            else do
              let (others, stop) ← percentBytes budget (c.advance 3)
              .ok (b.toUInt8 :: others, stop)
      else .ok ([], c)

/-- Characters of a tag besides percent escapes. -/
def isTagChar (c : Char) : Bool :=
  isNameChar c || ";/?:@&=+$,.!~*'()[]".toList.contains c

/-- The text of a tag, with percent escapes read as UTF-8. -/
def tagText : Nat → Cursor → Except Fault (Scanned (List Char))
  | 0, c => .ok ([], c)
  | budget + 1, c =>
      let plain := c.run isTagChar
      let behind := c.advance plain.length
      if behind.head == '%' then do
        let (octets, next) ← percentBytes (behind.rest.length + 1) behind
        match String.fromUTF8? ⟨octets.toArray⟩ with
        | none => malformed
        | some s =>
            let (others, stop) ← tagText budget next
            .ok (plain ++ s.toList ++ others, stop)
      else .ok (plain, behind)

/-- The text of a tag of at least one character. -/
def scanTagText (c : Cursor) : Except Fault (Scanned (List Char)) :=
  if isTagChar c.head || c.head == '%' then tagText (c.rest.length + 1) c else malformed

/-- A tag handle: an exclamation mark, alone or before a name and another one. -/
def scanHandle (c : Cursor) : Except Fault (Scanned (List Char)) :=
  if c.head != '!' then malformed
  else if c.peek 1 == ' ' then .ok (['!'], c.next)
  else
    let name := c.next.run isNameChar
    if c.peek (name.length + 1) == '!' then
      .ok ('!' :: name ++ ['!'], c.advance (name.length + 2))
    else malformed

/-- A directive; the cursor stands at its percent sign. -/
def scanDirective (c : Cursor) : Except Fault (Scanned Token) := do
  let (name, behind) ← scanName c.next
  if !endsWord behind.head then malformed
  else
    let (token, stop) ← if name = "YAML".toList then do
        let (major, point) ← scanVersionNumber behind.skipSpaces
        if point.head != '.' then malformed
        else
          let (_, stop) ← scanVersionNumber point.next
          if endsWord stop.head then pure (Token.versionDirective major, stop) else malformed
      else if name = "TAG".toList then do
        let (handle, space) ← scanHandle behind.skipSpaces
        if space.head != ' ' then malformed
        else
          let (lead, stop) ← scanTagText space.skipSpaces
          if endsWord stop.head then pure (Token.tagDirective handle lead, stop) else malformed
      else pure (Token.otherDirective, behind.skip (!endsLine ·))
    .ok (token, ← ignoredLine stop)

/-- The name of an anchor or an alias; the cursor stands at its mark. -/
def scanAnchorName (c : Cursor) : Except Fault (Scanned (List Char)) := do
  let (name, stop) ← scanName c.next
  if endsItem stop.head || "?:,]\x7d%@\x60".toList.contains stop.head then .ok (name, stop)
  else malformed

/-- Whether an exclamation mark comes before the end of the word. -/
def hasHandle (rest : List Char) : Bool :=
  (rest.takeWhile (!endsWord ·)).contains '!'

/-- A tag; the cursor stands at its exclamation mark. -/
def scanTag (c : Cursor) : Except Fault (Scanned Token) := do
  let behind := c.next
  let (token, stop) ← if behind.head == '<' then do
      let (suffix, close) ← scanTagText behind.next
      if close.head == '>' then pure (Token.tag none suffix, close.next) else malformed
    else if endsItem behind.head then pure (Token.tag none ['!'], behind)
    else if hasHandle behind.rest then do
      let (handle, next) ← scanHandle c
      let (suffix, stop) ← scanTagText next
      pure (Token.tag (some handle) suffix, stop)
    else do
      let (suffix, stop) ← scanTagText behind
      pure (Token.tag (some ['!']) suffix, stop)
  if endsWord stop.head then .ok (token, stop) else malformed

end ApiContract.Yaml
