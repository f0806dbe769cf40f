import ApiContract.Yaml.Cursor

/-!
# Tokens of YAML

What a text is made of before its structure is known.  Block structure, which the text shows by
indentation alone, has start and end tokens like the bracketed one.

A text that breaks off in a fault still has the tokens before it: the fault is the last token, and
a reader that stops earlier never sees it.
-/

namespace ApiContract.Yaml

inductive Token where
  | fault (f : Fault)
  | streamEnd
  | versionDirective (major : Nat)
  | tagDirective (handle lead : List Char)
  | otherDirective
  | documentStart
  | documentEnd
  | blockSequenceStart
  | blockMappingStart
  | blockEnd
  | flowSequenceStart
  | flowSequenceEnd
  | flowMappingStart
  | flowMappingEnd
  | blockEntry
  | flowEntry
  | key
  | value
  | alias (name : List Char)
  | anchor (name : List Char)
  | tag (handle : Option (List Char)) (suffix : List Char)
  | scalar (text : List Char) (plain : Bool)
  deriving DecidableEq, Repr

/-- A scanned part of a text and the cursor behind it. -/
abbrev Scanned (α : Type) := α × Cursor

def malformed {α : Type} : Except Fault α := .error .malformed

end ApiContract.Yaml
