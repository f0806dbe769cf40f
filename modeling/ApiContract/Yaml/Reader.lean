import ApiContract.Yaml.Node
import ApiContract.Yaml.Scalar
import ApiContract.Yaml.Token.Stream

/-!
# Reading YAML

The value of a text.  Merge marks bring the entries of other mappings into a mapping; what it
declares itself wins.

Nodes are turned into values in rounds: the entries of a collection come one round after the
collection, except inside of keys, where everything comes at once.  When several nodes are faulty
the fault of the first round decides, and in one round the first in the document.
-/

namespace ApiContract.Yaml

/-- What can keep a node from being a value: a fault, or that it holds itself. -/
inductive Obstacle where
  | fault (f : Fault)
  | endless
  deriving DecidableEq, Repr

/-- A value, or an obstacle and the number of rounds after which it is met.  An endless node is
noticed behind all faults. -/
abbrev Outcome (α : Type) := Except (Nat × Obstacle) α

namespace Outcome

variable {α β γ : Type}

def ofExcept (x : Except Fault α) : Outcome α := x.mapError fun f => (0, .fault f)

def malformed : Outcome α := .error (0, .fault .malformed)

/-- An obstacle is met later by a number of rounds. -/
def later (rounds : Nat) (x : Outcome α) : Outcome α :=
  x.mapError fun e => (e.1 + rounds, e.2)

/-- Whether an obstacle is met before another one that stands in front of it. -/
def isBefore (second first : Nat × Obstacle) : Bool :=
  match first.2, second.2 with
  | .endless, .fault _ => true
  | .fault _, .endless => false
  | _, _ => second.1 < first.1

/-- Both values, or the obstacle that is met first. -/
def both (f : α → β → γ) : Outcome α → Outcome β → Outcome γ
  | .ok a, .ok b => .ok (f a b)
  | .error e, .ok _ => .error e
  | .ok _, .error e => .error e
  | .error e, .error e' => .error (if isBefore e' e then e' else e)

/-- All values, or the obstacle that is met first. -/
def all : List (Outcome α) → Outcome (List α)
  | [] => .ok []
  | x :: rest => both List.cons x (all rest)

end Outcome

namespace Node

/-- A node as a text, whatever its tag was. -/
def asText : Node → Node
  | .scalar _ text => .scalar .str text
  | .sequence _ items => .sequence .str items
  | .mapping _ entries => .mapping .str entries
  | n => n

mutual

/-- How deep a node is nested. -/
def depth : Node → Nat
  | .scalar _ _ => 0
  | .sequence _ items => itemsDepth items + 1
  | .mapping _ entries => entriesDepth entries + 1
  | .loop _ _ => 0

def itemsDepth : List Node → Nat
  | [] => 0
  | n :: rest => max n.depth (itemsDepth rest)

def entriesDepth : List (Node × Node) → Nat
  | [] => 0
  | (k, v) :: rest => max (max k.depth v.depth) (entriesDepth rest)

end

/-- The entries that a mapping declares itself.  The mark for a default value is a text there. -/
def ownEntries (entries : List (Node × Node)) : List (Node × Node) :=
  (entries.filter (·.1.tag != .merge)).map fun e =>
    (if e.1.tag = .value then e.1.asText else e.1, e.2)

mutual

/-- The entries that the merge marks of a mapping bring in; `none` when something is marked that
is no mapping. -/
def mergedEntries? : List (Node × Node) → Option (List (Node × Node))
  | [] => some []
  | (k, v) :: rest =>
      if k.tag = .merge then do
        let first ← mergeSource? v
        let others ← mergedEntries? rest
        some (first ++ others)
      else mergedEntries? rest

/-- The entries of what a merge mark stands before: a mapping, or a sequence of mappings of which
an earlier one wins. -/
def mergeSource? : Node → Option (List (Node × Node))
  | .mapping _ entries => do
      let merged ← mergedEntries? entries
      some (merged ++ ownEntries entries)
  | .sequence _ items => mergeSources? items
  | .loop anchor true => some [(.scalar .str [], .loop anchor true)]
  | _ => none

def mergeSources? : List Node → Option (List (Node × Node))
  | [] => some []
  | .mapping _ entries :: rest => do
      let merged ← mergedEntries? entries
      let others ← mergeSources? rest
      some (others ++ (merged ++ ownEntries entries))
  | .loop anchor true :: rest => do
      let others ← mergeSources? rest
      some (others ++ [(.scalar .str [], .loop anchor true)])
  | _ :: _ => none

end

mutual

/-- The text of a node that is used as a scalar: a mapping stands for its default value. -/
def scalarText? : Node → Option (List Char)
  | .scalar _ text => some text
  | .mapping _ entries => defaultText? entries
  | _ => none

def defaultText? : List (Node × Node) → Option (List Char)
  | [] => none
  | (k, v) :: rest => if k.tag = .value then scalarText? v else defaultText? rest

end

/-- Rounds between a collection and its parts. -/
def gap (atOnce : Bool) : Nat := if atOnce then 0 else 1

/-- A key that can change is malformed; one that holds itself is a collection, which can. -/
def keyOutcome : Outcome Value → Outcome Value
  | .ok k => if k.isKey then .ok k else .malformed
  | .error (_, .endless) => .malformed
  | .error e => .error e

/-- A mapping of built entries. -/
def entriesValue (entries : List (Outcome Value × Outcome Value)) : Outcome Entries :=
  (Outcome.all (entries.map fun e => Outcome.both Prod.mk (keyOutcome e.1) e.2)).map
    Entries.ofList

/-- The value of a node with a tag of scalars. -/
def scalarOutcome (tag : Tag) (n : Node) : Outcome Value :=
  match n.scalarText? with
  | none => .malformed
  | some text =>
      match tag, n with
      | .timestamp, .mapping _ _ => .error (0, .fault .unreadable)
      | _, _ => .ofExcept (scalarValue tag text)

/-- The value of a node.  The budget is the depth of the node, and `atOnce` holds inside of
keys. -/
def build : Nat → (atOnce : Bool) → Node → Outcome Value
  | _, _, .loop _ _ => .error (0, .endless)
  | 0, atOnce, n => match n.tag with
      | .seq | .map | .set | .omap | .pairs => Outcome.later (gap atOnce) .malformed
      | tag => scalarOutcome tag n
  | budget + 1, atOnce, n =>
      let later {α : Type} (x : Outcome α) : Outcome α := x.later (gap atOnce)
      let mappingOf (entries : List (Node × Node)) : Outcome Entries :=
        match mergedEntries? entries with
        | none => .malformed
        | some merged => entriesValue ((merged ++ ownEntries entries).map fun e =>
            (build budget true e.1, build budget atOnce e.2))
      let pairsOf (items : List Node) : Outcome (List Value) :=
        Outcome.all (items.map fun
          | .mapping _ [(k, v)] =>
              Outcome.both .pair (build budget atOnce k) (build budget atOnce v)
          | _ => .malformed)
      match n.tag, n with
      | .seq, .sequence _ items => later ((Outcome.all (items.map (build budget atOnce))).map .list)
      | .map, .mapping _ entries => later ((mappingOf entries).map .map)
      | .set, .mapping _ entries => later ((mappingOf entries).map fun es => .set (Entries.keys es))
      | .omap, .sequence _ items => later ((pairsOf items).map .list)
      | .pairs, .sequence _ items => later ((pairsOf items).map .list)
      | .seq, _ | .map, _ | .set, _ | .omap, _ | .pairs, _ => later .malformed
      | tag, _ => scalarOutcome tag n

end Node

/-- The value of a document.  One that holds itself is no value: as a mapping it is unreadable,
and of any other only the kind is known. -/
def documentValue (n : Node) : Except Fault Value :=
  match n.build (n.depth + 1) false with
  | .ok v => .ok v
  | .error (_, .fault f) => .error f
  | .error (_, .endless) => if n.tag = .map then .error .unreadable else .ok (.list [])

/-- The value of a YAML text; a text without a document is null. -/
def read (text : List Char) : Except Fault Value :=
  if text.all isAdmitted then do
    match ← Node.ofTokens? (tokens text) with
    | none => .ok .null
    | some n => documentValue n
  else .error .malformed

end ApiContract.Yaml
