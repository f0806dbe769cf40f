import ApiContract.Text.Numeral
import ApiContract.Value.Access
import ApiContract.Value.Display

/-!
# Pointers into a document

A reference is the text `#/` followed by segments with slashes between them.  In a segment `~0`
stands for a tilde and `~1` for a slash.  Each segment names a key of a mapping or a position of a
list; positions are read as whole numbers and may be negative.

`Location` is the way back: the place of a node as steps from the root, with the text of the
pointer that leads there.
-/

namespace ApiContract.Reference

/-- A segment with tildes and slashes written as escapes. -/
def escape : List Char → List Char
  | [] => []
  | '~' :: rest => '~' :: '0' :: escape rest
  | '/' :: rest => '~' :: '1' :: escape rest
  | c :: rest => c :: escape rest

/-- A segment with its escapes read; a tilde before anything else stands for itself. -/
def unescape : List Char → List Char
  | [] => []
  | '~' :: '1' :: rest => '/' :: unescape rest
  | '~' :: '0' :: rest => '~' :: unescape rest
  | c :: rest => c :: unescape rest

/-- The parts between slashes; there is always at least one. -/
def segments : List Char → List (List Char)
  | [] => [[]]
  | c :: rest =>
      if c = '/' then [] :: segments rest
      else match segments rest with
        | [] => [[c]]
        | part :: parts => (c :: part) :: parts

/-- Why a reference leads nowhere. -/
inductive Dangling where
  | external
  | missingKey (segment : List Char)
  | badPosition (segment : List Char)
  | notNavigable (kindName : String)
  deriving DecidableEq, Repr

def Dangling.message : Dangling → String
  | .external => "external references are not supported"
  | .missingKey segment => s!"key '{String.ofList segment}' not found"
  | .badPosition segment => s!"invalid array index '{String.ofList segment}'"
  | .notNavigable kindName => s!"cannot navigate into {kindName}"

/-- The segments of a reference to a place in the same document. -/
def parse? : Value → Option (List (List Char))
  | .str s => match s.toList with
      | '#' :: '/' :: rest => some ((segments rest).map unescape)
      | _ => none
  | _ => none

/-- One step into a node. -/
def step (node : Value) (segment : List Char) : Except Dangling Value :=
  match node with
  | .map entries => match Entries.field? entries (String.ofList segment) with
      | some v => .ok v
      | none => .error (.missingKey segment)
  | .list items =>
      match (Text.wholeNumber? 10 segment).bind fun index =>
          (Value.position? items.length index).bind fun i => items[i]? with
      | some v => .ok v
      | none => .error (.badPosition segment)
  | v => .error (.notNavigable v.kindName)

/-- Steps one after another. -/
def follow (node : Value) : List (List Char) → Except Dangling Value
  | [] => .ok node
  | segment :: rest => do follow (← step node segment) rest

/-- The node that a reference leads to. -/
def resolve (root ref : Value) : Except Dangling Value :=
  match parse? ref with
  | none => .error .external
  | some path => follow root path

/-! ## Locations -/

/-- A step from a node to a part of it. -/
inductive Step where
  | key (k : Value)
  | index (i : Nat)
  deriving Repr

/-- The place of a node: the steps from the root, the last one first. -/
abbrev Location := List Step

def Step.text : Step → List Char
  | .key k => escape k.shown.toList
  | .index i => (toString i).toList

/-- Steps in order, each behind a slash. -/
def pathText (steps : List Step) : List Char :=
  steps.flatMap fun s => '/' :: s.text

/-- The text of the pointer to a place. -/
def Location.text (place : Location) : String :=
  String.ofList ('#' :: pathText place.reverse)

@[simp] theorem unescape_escape (s : List Char) : unescape (escape s) = s := by
  fun_induction escape s with
  | case1 => rfl
  | case2 rest ih => simp [unescape, ih]
  | case3 rest ih => simp [unescape, ih]
  | case4 c rest hTilde hSlash ih =>
      have hc : c ≠ '~' := fun h => hTilde h
      rw [unescape, ih]
      · intro tail h; cases h; exact absurd rfl hc
      · intro tail h; cases h; exact absurd rfl hc

end ApiContract.Reference
