import ApiContract.Yaml.Tag
import ApiContract.Yaml.Token

/-!
# The node tree of a document

Tokens are put together to a tree of scalars, sequences and mappings, each with its tag.  An alias
is replaced by the node that its anchor names; an alias inside of the node that it names would
make the tree endless and stays as a `loop`.

A text holds at most one document.
-/

namespace ApiContract.Yaml

inductive Node where
  | scalar (tag : Tag) (text : List Char)
  | sequence (tag : Tag) (items : List Node)
  | mapping (tag : Tag) (entries : List (Node × Node))
  | loop (anchor : List Char) (isMapping : Bool)
  deriving Repr, Inhabited

namespace Node

def tag : Node → Tag
  | .scalar tag _ => tag
  | .sequence tag _ => tag
  | .mapping tag _ => tag
  | .loop _ isMapping => if isMapping then .map else .seq

/-- What stands where a node is left out. -/
def empty : Node := .scalar .null []

end Node

/-- What an anchor names: a node, or a collection that is still being read. -/
inductive Anchored where
  | node (n : Node)
  | unfinished (isMapping : Bool)
  deriving Repr

/-- The tokens that are left, and the anchors of the document so far. -/
structure Reading where
  tokens : List Token
  anchors : List (List Char × Anchored)
  deriving Repr

/-- A tag with its handle replaced. -/
inductive Typing where
  | untyped
  | nonSpecific
  | typed (tag : Tag)
  deriving DecidableEq, Repr

/-- Anchor and tag in front of a node. -/
structure Properties where
  anchor : Option (List Char)
  typing : Typing
  deriving Repr

namespace Typing

/-- The tag of a collection. -/
def collection (default : Tag) : Typing → Tag
  | .typed tag => tag
  | _ => default

/-- The tag of a scalar.  Without one a plain scalar, and any scalar with the non-specific tag, is
typed by its text. -/
def scalar (text : List Char) (plain : Bool) : Typing → Tag
  | .typed tag => tag
  | .nonSpecific => implicitTag text
  | .untyped => if plain then implicitTag text else .str

end Typing

/-- What tag handles stand for. -/
abbrev Handles := List (List Char × List Char)

/-- The handles of every document, unless it declares them anew. -/
def defaultHandles : Handles := [(['!'], ['!']), (['!', '!'], Tag.coreLead.toList)]

namespace Reading

/-- The next token.  At a fault the text has broken off. -/
def peek (r : Reading) : Except Fault Token :=
  match r.tokens with
  | [] => malformed
  | .fault f :: _ => .error f
  | t :: _ => .ok t

def drop (r : Reading) : Reading := { r with tokens := r.tokens.tail }

/-- Registers what an anchor names. -/
def register (r : Reading) (anchor : Option (List Char)) (what : Anchored) : Reading :=
  match anchor with
  | none => r
  | some name => { r with anchors := (name, what) :: r.anchors }

/-- The full tag of a written one. -/
def typingOf (handles : Handles) (handle : Option (List Char)) (suffix : List Char) :
    Except Fault Typing :=
  let typing (name : List Char) : Typing :=
    if name = ['!'] then .nonSpecific else .typed (Tag.ofName name)
  match handle with
  | none => .ok (typing suffix)
  | some h => match handles.find? (·.1 == h) with
    | some expansion => .ok (typing (expansion.2 ++ suffix))
    | none => malformed

/-- Anchor and tag in front of a node, in either order; what is left is peeked at. -/
def properties (handles : Handles) (r : Reading) : Except Fault (Properties × Reading) := do
  match ← r.peek with
  | .anchor name => match ← r.drop.peek with
    | .tag handle suffix =>
        .ok (⟨some name, ← typingOf handles handle suffix⟩, r.drop.drop)
    | _ => .ok (⟨some name, .untyped⟩, r.drop)
  | .tag handle suffix => match ← r.drop.peek with
    | .anchor name => .ok (⟨some name, ← typingOf handles handle suffix⟩, r.drop.drop)
    | _ => .ok (⟨none, ← typingOf handles handle suffix⟩, r.drop)
  | _ => .ok (⟨none, .untyped⟩, r)

/-- The node that an alias stands for. -/
def aliased (r : Reading) (name : List Char) : Except Fault Node :=
  match r.anchors.find? (·.1 == name) with
  | none => malformed
  | some (_, .node n) => .ok n
  | some (_, .unfinished isMapping) => .ok (.loop name isMapping)

/-- An anchor must not be used twice. -/
def checkAnchor (r : Reading) (anchor : Option (List Char)) : Except Fault Unit :=
  match anchor with
  | none => .ok ()
  | some name => if r.anchors.any (·.1 == name) then malformed else .ok ()

end Reading

/-! ## Nodes -/

/-- Where a node stands: between brackets, in a block, or in a block where the entries of a
sequence may stand without indentation. -/
inductive Context where
  | flow
  | block
  | blockValue
  deriving DecidableEq, Repr

/-- Whether a merge of a mapping into itself stands in an entry; it adds nothing. -/
def isSelfMerge (anchor : Option (List Char)) (entry : Node × Node) : Bool :=
  match entry.1.tag, entry.2 with
  | .merge, .loop name true => anchor == some name
  | _, _ => false

mutual

/-- A node. -/
def readNode (handles : Handles) : Nat → Context → Reading → Except Fault (Node × Reading)
  | 0, _, _ => malformed
  | budget + 1, context, r => do
      match ← r.peek with
      | .alias name => .ok (← r.aliased name, r.drop)
      | _ => do
          let (found, r) ← r.properties handles
          let next ← r.peek
          r.checkAnchor found.anchor
          readContent handles budget context found next r

/-- A node behind its properties. -/
def readContent (handles : Handles) : Nat → Context → Properties → Token → Reading →
    Except Fault (Node × Reading)
  | 0, _, _, _, _ => malformed
  | budget + 1, context, found, next, r =>
      let sequence (entries : Reading → Except Fault (List Node × Reading)) := do
        let (items, stop) ← entries (r.register found.anchor (.unfinished false))
        let n := Node.sequence (found.typing.collection .seq) items
        .ok (n, stop.register found.anchor (.node n))
      let mapping (entries : Reading → Except Fault (List (Node × Node) × Reading)) := do
        let (pairs, stop) ← entries (r.register found.anchor (.unfinished true))
        let n := Node.mapping (found.typing.collection .map)
          (pairs.filter (!isSelfMerge found.anchor ·))
        .ok (n, stop.register found.anchor (.node n))
      let scalar (text : List Char) (plain : Bool) (stop : Reading) :=
        let n := Node.scalar (found.typing.scalar text plain) text
        .ok (n, stop.register found.anchor (.node n))
      match next with
      | .scalar text plain => scalar text plain r.drop
      | .flowSequenceStart => sequence fun s => readFlowItems handles budget true s.drop
      | .flowMappingStart => mapping fun s => readFlowEntries handles budget true s.drop
      | .blockEntry =>
          if context = .blockValue then sequence fun s => readPlainEntries handles budget s
          else if found.anchor.isSome || found.typing ≠ .untyped then scalar [] true r
          else malformed
      | .blockSequenceStart =>
          if context ≠ .flow then sequence fun s => readBlockItems handles budget s.drop
          else if found.anchor.isSome || found.typing ≠ .untyped then scalar [] true r
          else malformed
      | .blockMappingStart =>
          if context ≠ .flow then mapping fun s => readBlockEntries handles budget s.drop
          else if found.anchor.isSome || found.typing ≠ .untyped then scalar [] true r
          else malformed
      | _ =>
          if found.anchor.isSome || found.typing ≠ .untyped then scalar [] true r else malformed

/-- A node, unless one of the tokens that show that it is left out comes. -/
def readOptional (handles : Handles) : Nat → Context → (ends : List Token) → Reading →
    Except Fault (Node × Reading)
  | 0, _, _, _ => malformed
  | budget + 1, context, ends, r => do
      if ends.contains (← r.peek) then .ok (.empty, r) else readNode handles budget context r

/-- The items of a block sequence up to its end. -/
def readBlockItems (handles : Handles) : Nat → Reading → Except Fault (List Node × Reading)
  | 0, _ => malformed
  | budget + 1, r => do
      match ← r.peek with
      | .blockEntry => do
          let (first, r) ← readOptional handles budget .block [.blockEntry, .blockEnd] r.drop
          let (others, r) ← readBlockItems handles budget r
          .ok (first :: others, r)
      | .blockEnd => .ok ([], r.drop)
      | _ => malformed

/-- The items of a sequence that is not indented; another token ends it. -/
def readPlainEntries (handles : Handles) : Nat → Reading → Except Fault (List Node × Reading)
  | 0, _ => malformed
  | budget + 1, r => do
      match ← r.peek with
      | .blockEntry => do
          let (first, r) ←
            readOptional handles budget .block [.blockEntry, .key, .value, .blockEnd] r.drop
          let (others, r) ← readPlainEntries handles budget r
          .ok (first :: others, r)
      | _ => .ok ([], r)

/-- The entries of a block mapping up to its end. -/
def readBlockEntries (handles : Handles) : Nat → Reading →
    Except Fault (List (Node × Node) × Reading)
  | 0, _ => malformed
  | budget + 1, r => do
      match ← r.peek with
      | .key => do
          let ends : List Token := [.key, .value, .blockEnd]
          let (k, r) ← readOptional handles budget .blockValue ends r.drop
          let (v, r) ← readValueIf handles budget .blockValue ends r
          let (others, r) ← readBlockEntries handles budget r
          .ok ((k, v) :: others, r)
      | .blockEnd => .ok ([], r.drop)
      | _ => malformed

/-- The value behind a value mark; without the mark it is left out. -/
def readValueIf (handles : Handles) : Nat → Context → (ends : List Token) → Reading →
    Except Fault (Node × Reading)
  | 0, _, _, _ => malformed
  | budget + 1, context, ends, r => do
      match ← r.peek with
      | .value => readOptional handles budget context ends r.drop
      | _ => .ok (.empty, r)

/-- The items of a bracketed sequence up to its end.  An entry with a key mark is a mapping of its
own. -/
def readFlowItems (handles : Handles) : Nat → (atStart : Bool) → Reading →
    Except Fault (List Node × Reading)
  | 0, _, _ => malformed
  | budget + 1, atStart, r => do
      let next ← r.peek
      if next = .flowSequenceEnd then .ok ([], r.drop)
      else if !atStart && next ≠ .flowEntry then malformed
      else
        let r := if atStart then r else r.drop
        match ← r.peek with
        | .flowSequenceEnd => .ok ([], r.drop)
        | .key => do
            let (k, r) ← readOptional handles budget .flow
              [.value, .flowEntry, .flowSequenceEnd] r.drop
            let (v, r) ← readValueIf handles budget .flow [.flowEntry, .flowSequenceEnd] r
            let (others, r) ← readFlowItems handles budget false r
            .ok (.mapping .map [(k, v)] :: others, r)
        | _ => do
            let (first, r) ← readNode handles budget .flow r
            let (others, r) ← readFlowItems handles budget false r
            .ok (first :: others, r)

/-- The entries of a bracketed mapping up to its end.  A node without a key mark is a key without
a value. -/
def readFlowEntries (handles : Handles) : Nat → (atStart : Bool) → Reading →
    Except Fault (List (Node × Node) × Reading)
  | 0, _, _ => malformed
  | budget + 1, atStart, r => do
      let next ← r.peek
      if next = .flowMappingEnd then .ok ([], r.drop)
      else if !atStart && next ≠ .flowEntry then malformed
      else
        let r := if atStart then r else r.drop
        match ← r.peek with
        | .flowMappingEnd => .ok ([], r.drop)
        | .key => do
            let (k, r) ← readOptional handles budget .flow
              [.value, .flowEntry, .flowMappingEnd] r.drop
            let (v, r) ← readValueIf handles budget .flow [.flowEntry, .flowMappingEnd] r
            let (others, r) ← readFlowEntries handles budget false r
            .ok ((k, v) :: others, r)
        | _ => do
            let (k, r) ← readNode handles budget .flow r
            let (others, r) ← readFlowEntries handles budget false r
            .ok ((k, .empty) :: others, r)

end

/-! ## Documents -/

/-- The directives of a document: at most one version, which must be 1, and handles that are
declared once each. -/
def readDirectives : Nat → (sawVersion : Bool) → Handles → Reading →
    Except Fault (Handles × Reading)
  | 0, _, _, _ => malformed
  | budget + 1, sawVersion, handles, r => do
      match ← r.peek with
      | .versionDirective major =>
          if sawVersion || major ≠ 1 then malformed
          else readDirectives budget true handles r.drop
      | .tagDirective handle lead =>
          if handles.any (·.1 == handle) then malformed
          else readDirectives budget sawVersion (handles ++ [(handle, lead)]) r.drop
      | .otherDirective => readDirectives budget sawVersion handles r.drop
      | _ => .ok (handles ++ defaultHandles, r)

/-- What may follow a document: marks of its end, and the end of the text. -/
def readEnd : Nat → Reading → Except Fault Unit
  | 0, _ => malformed
  | budget + 1, r => do
      match ← r.peek with
      | .documentEnd => readEnd budget r.drop
      | .streamEnd => .ok ()
      | _ => do
          let _ ← readDirectives (budget + 1) false [] r
          malformed

/-- The document of a list of tokens, if there is one. -/
def Node.ofTokens? (tokens : List Token) : Except Fault (Option Node) := do
  let budget := 6 * tokens.length + 6
  let r : Reading := ⟨tokens, []⟩
  match ← r.peek with
  | .streamEnd => .ok none
  | .versionDirective _ | .tagDirective _ _ | .otherDirective | .documentStart => do
      let (handles, r) ← readDirectives budget false [] r
      match ← r.peek with
      | .documentStart => do
          let r := r.drop
          match ← r.peek with
          | .versionDirective _ | .tagDirective _ _ | .otherDirective | .documentStart
          | .documentEnd | .streamEnd => do
              readEnd budget r
              .ok (some .empty)
          | _ => do
              let (n, r) ← readNode handles budget .block r
              readEnd budget r
              .ok (some n)
      | _ => malformed
  | _ => do
      let (n, r) ← readNode defaultHandles budget .block r
      readEnd budget r
      .ok (some n)

end ApiContract.Yaml
