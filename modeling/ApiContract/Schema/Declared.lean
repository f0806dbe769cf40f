import ApiContract.Fault
import ApiContract.Value.Access

/-!
# Looking into declarations

A description is read without a schema of its own, so a declaration may be of any kind.  The
functions below look into a declaration and fail with a misfit when its kind does not admit it.
-/

namespace ApiContract.Schema

/-- The value that is there, or a misfit. -/
def orMisfit {α : Type} : Option α → Except Fault α
  | some a => .ok a
  | none => .error .misfit

/-- The entries of a mapping. -/
def entriesOf (v : Value) : Except Fault Entries :=
  orMisfit v.asMap?

/-- The entries of a mapping that may be left out. -/
def entriesIfAny (v : Value) : Except Fault Entries :=
  if v.truthy then entriesOf v else .ok []

/-- The value under a text key of a mapping, null when there is none. -/
def fieldOf (v : Value) (name : String) : Except Fault Value :=
  (entriesOf v).map (Entries.fieldD · name)

/-- The value under any key of a mapping, null when there is none. -/
def memberOf (v key : Value) : Except Fault Value := do
  let es ← entriesOf v
  if key.isKey then .ok ((Entries.get? es key).getD .null) else .error .misfit

/-- Whether a declaration has a member of a name. -/
def declares (v : Value) (name : String) : Except Fault Bool :=
  orMisfit (v.holds? (.str name))

/-- The part of a declaration that is declared under a name. -/
def declared (v : Value) (name : String) : Except Fault Value :=
  orMisfit (v.part? (.str name))

/-- A name: a text, or bytes that hold one. -/
def nameOf : Value → Except Fault String
  | .str s => .ok s
  | .bytes octets => orMisfit (String.fromUTF8? ⟨octets.toArray⟩)
  | _ => .error .misfit

/-- Extensions of the format have keys that start with `x-`; they declare nothing. -/
def isExtension : Value → Bool
  | .str s => "x-".toList.isPrefixOf s.toList
  | _ => false

end ApiContract.Schema
