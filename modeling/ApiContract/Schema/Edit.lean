import ApiContract.Schema.Declared
import ApiContract.Schema.Request

/-!
# Editing schemas given as values

The edits of object schemas for a schema that is a plain value and may be anything: every step
fails with a misfit when the schema is not shaped like an object schema where the step looks.
-/

namespace ApiContract.Schema

/-- Adds a name to a collection of names.  Only a list can grow. -/
def addName (required name : Value) : Except Fault Value := do
  if ← orMisfit (required.holds? name) then return required
  match required with
  | .list names => return .list (names ++ [name])
  | _ => throw .misfit

/-- Adds names one after another. -/
def addNames (required : Value) : List Value → Except Fault Value
  | [] => .ok required
  | name :: rest => do addNames (← addName required name) rest

/-- Changes what a mapping has under a key. -/
def editField (name : String) (edit : Value → Except Fault Value) : Value → Except Fault Value
  | .map es => do
      let edited ← edit (← orMisfit (Entries.field? es name))
      return .map (Entries.setField es name edited)
  | _ => .error .misfit

/-- Puts a value under a key of a mapping. -/
def putField (name : String) (v : Value) : Value → Except Fault Value
  | .map es => .ok (.map (Entries.setField es name v))
  | _ => .error .misfit

/-- Adds names to those that an object schema requires. -/
def requireNames (names : List Value) : Value → Except Fault Value :=
  editField "required" (addNames · names)

/-- Pins the content type in a bucket of headers. -/
def pinContentType (required : Bool) (contentType : String) (headers : Value) :
    Except Fault Value := do
  let pinned ← editField "properties"
    (putField "Content-Type" (Node.pinned (.str contentType)).toValue) headers
  if required then requireNames [contentTypeName] pinned else return pinned

/-- A message schema that carries one variant of its body. -/
def editWithContent (required : Bool) (variant : ContentVariant) (base : Value) :
    Except Fault Value := do
  let whole ← editField "properties" (fun properties => do
    let withBody ← putField "body" variant.schema properties
    editField "headers" (pinContentType required variant.contentType) withBody) base
  if required then requireNames [.str "headers", .str "body"] whole else return whole

/-- One branch for every variant of a body. -/
def editBranches (base : Value) (body : Body) : Except Fault (List Value) :=
  body.content.mapM fun variant => editWithContent body.required variant base

/-- A pair of elements, the first of which can be a key. -/
def pairOf (v : Value) : Except Fault (Value × Value) := do
  match ← orMisfit v.elements? with
  | [key, value] => if key.isKey then return (key, value) else throw .misfit
  | _ => throw .misfit

/-- The mapping that a mapping or a list of pairs stands for. -/
def asMapping (v : Value) : Except Fault Entries := do
  if !v.truthy then return []
  match v with
  | .map es => return es
  | _ => return Entries.ofList (← (← orMisfit v.elements?).mapM pairOf)

/-- An object schema from parts of any kind. -/
def objectSchema (properties required additional : Value) : Except Fault Node := do
  let named ← asMapping properties
  let names ← orMisfit required.elements?
  let base : ObjectNode Node := ⟨named.map fun e => (e.1, .given e.2), [], additional⟩
  return .object (base.requireAll names)

/-- A choice between the elements of a value. -/
def unionSchema (branches : Value) : Except Fault Node := do
  return .oneOf ((← orMisfit branches.elements?).map .given)

end ApiContract.Schema
