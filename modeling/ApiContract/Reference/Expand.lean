import ApiContract.Reference.Pointer
import ApiContract.Traced

/-!
# Expansion of references

Every reference of a description is replaced by the node that it leads to, and the references
inside that node in turn.  A reference that is met again while it is being expanded is left in
place, so a description that refers to itself keeps one expanded level.

The expansion never stops at a dangling reference: it collects all of them, each with the place
where it was found.  On every branch each reference is expanded at most once, because an expansion
takes it from the list of *fresh* references; the length of that list is the budget of the
recursion.
-/

namespace ApiContract.Reference

/-- A reference that leads nowhere, where it was found, and why. -/
structure Failure where
  ref : String
  location : String
  reason : String
  deriving DecidableEq, Repr, Inhabited

def Failure.text (f : Failure) : String :=
  s!"{f.location}: {f.ref} ({f.reason})"

/-- The message for all failures together. -/
def failuresMessage (failures : List Failure) : String :=
  let noun := if failures.length = 1 then "reference" else "references"
  s!"Could not resolve {failures.length} {noun}:\n" ++
    String.intercalate "\n" (failures.map fun f => "  " ++ f.text)

/-- An expanded node and the failures met on the way, in document order. -/
structure Expansion (α : Type) where
  node : α
  failures : List Failure
  deriving Repr

/-- The name of the field that makes a mapping a reference. -/
def refField : String := "$ref"

mutual

/-- Expands a node.  What to do at a reference is given by `hop`, which receives the place, the
reference and the mapping that holds it. -/
def walk (hop : Location → Value → Value → Expansion Value) (place : Location) :
    Value → Expansion Value
  | .list items =>
      let inner := walkItems hop place 0 items
      ⟨.list inner.node, inner.failures⟩
  | .map entries =>
      match Entries.field? entries refField with
      | some ref => hop place ref (.map entries)
      | none =>
          let inner := walkEntries hop place entries
          ⟨.map inner.node, inner.failures⟩
  | v => ⟨v, []⟩

def walkItems (hop : Location → Value → Value → Expansion Value) (place : Location) :
    Nat → List Value → Expansion (List Value)
  | _, [] => ⟨[], []⟩
  | i, v :: rest =>
      let first := walk hop (.index i :: place) v
      let others := walkItems hop place (i + 1) rest
      ⟨first.node :: others.node, first.failures ++ others.failures⟩

def walkEntries (hop : Location → Value → Value → Expansion Value) (place : Location) :
    List (Value × Value) → Expansion (List (Value × Value))
  | [] => ⟨[], []⟩
  | (k, v) :: rest =>
      let first := walk hop (.key k :: place) v
      let others := walkEntries hop place rest
      ⟨(k, first.node) :: others.node, first.failures ++ others.failures⟩

end

/-- Whether a reference is being expanded already: it is a text that is no longer fresh. -/
def isActive (fresh : List String) : Value → Bool
  | .str s => !fresh.contains s
  | _ => false

/-- What happens at a reference.  One that is being expanded stays; a dangling one stays and is a
failure; any other is replaced by its target, expanded by `enter`. -/
def hop (root : Value) (enter : List String → Location → Value → Expansion Value)
    (fresh : List String) (place : Location) (ref node : Value) : Expansion Value :=
  if isActive fresh ref then ⟨node, []⟩
  else match resolve root ref with
    | .error e => ⟨node, [⟨ref.shown, place.text, e.message⟩]⟩
    | .ok target => enter (fresh.filter (· ≠ ref.shown)) place target

/-- Expands a node of the description `root`; references that are not fresh stay. -/
def expandWithin (root : Value) : Nat → List String → Location → Value → Expansion Value
  | 0, fresh => walk (hop root (fun _ _ node => ⟨node, []⟩) fresh)
  | budget + 1, fresh => walk (hop root (expandWithin root budget) fresh)

mutual

/-- The texts of all references in a value, in document order. -/
def references : Value → List String
  | .list items => itemReferences items
  | .map entries => entryReferences entries
  | _ => []

def itemReferences : List Value → List String
  | [] => []
  | v :: rest => references v ++ itemReferences rest

def entryReferences : List (Value × Value) → List String
  | [] => []
  | (k, v) :: rest =>
      (match k, v with
        | .str name, .str ref => if name = refField then [ref] else []
        | _, _ => []) ++ references v ++ entryReferences rest

end

/-- The distinct references of a description. -/
def distinctReferences (root : Value) : List String :=
  (references root).eraseDups

/-- The expansion of a whole description. -/
def expand (root : Value) : Expansion Value :=
  let fresh := distinctReferences root
  expandWithin root fresh.length fresh [] root

end ApiContract.Reference
