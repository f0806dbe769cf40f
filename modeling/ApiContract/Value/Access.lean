import ApiContract.Value

/-!
# Access to parts of a value

What it means to look for a member, to go to an element, or to take the elements of a value of any
kind.  Each answer is `none` when the kind of the value has no such notion.
-/

namespace ApiContract.Value

/-- Whether one list of characters occurs inside another. -/
def occursIn (part : List Char) : List Char → Bool
  | [] => part.isEmpty
  | c :: cs => part.isPrefixOf (c :: cs) || occursIn part cs

/-- Whether a value has a member: a key of a mapping, an element of a collection, a part of a
text. -/
def holds? (container member : Value) : Option Bool :=
  match container with
  | .map es => if member.isKey then some (Entries.has es member) else none
  | .set xs => if member.isKey then some (xs.any (·.same member)) else none
  | .list xs => some (xs.any (·.same member))
  | .pair a b => some (a.same member || b.same member)
  | .str s => match member with
      | .str part => some (occursIn part.toList s.toList)
      | _ => none
  | _ => none

/-- Position in a list of a given length; negative positions count from the end. -/
def position? (length : Nat) (index : Int) : Option Nat :=
  if 0 ≤ index then
    if index < length then some index.toNat else none
  else if -(length : Int) ≤ index then some (index + length).toNat
  else none

/-- The whole number that a value can be used as a position for. -/
def asIndex? : Value → Option Int
  | .int n => some n
  | .bool b => some b.toInt
  | _ => none

/-- The part of a value at a key or a position. -/
def part? (container key : Value) : Option Value :=
  match container with
  | .map es => if key.isKey then Entries.get? es key else none
  | .list xs => do xs[← position? xs.length (← key.asIndex?)]?
  | .pair a b => do [a, b][← position? 2 (← key.asIndex?)]?
  | .str s => do
      let c ← s.toList[← position? s.length (← key.asIndex?)]?
      some (.str (String.singleton c))
  | .bytes bs => do
      let b ← bs[← position? bs.length (← key.asIndex?)]?
      some (.int b.toNat)
  | _ => none

/-- The elements of a value in order: members, keys or characters. -/
def elements? : Value → Option (List Value)
  | .list xs => some xs
  | .set xs => some xs
  | .map es => some (Entries.keys es)
  | .pair a b => some [a, b]
  | .str s => some (s.toList.map fun c => .str (String.singleton c))
  | .bytes bs => some (bs.map fun b => .int b.toNat)
  | _ => none

end ApiContract.Value
