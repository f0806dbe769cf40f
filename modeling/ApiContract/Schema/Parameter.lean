import ApiContract.Schema.MediaType
import ApiContract.Traced

/-!
# Parameters

A parameter is known by its name and its location.  The parameters of an operation come first, as
declared; those of its path item follow, except the ones that the operation declares itself.
-/

namespace ApiContract.Schema

/-- Where a parameter is sent. -/
inductive ParameterLocation where
  | path
  | header
  | cookie
  | query
  deriving DecidableEq, Repr

namespace ParameterLocation

def name : ParameterLocation → String
  | .path => "path"
  | .header => "header"
  | .cookie => "cookie"
  | .query => "query"

/-- The location of a name. -/
def ofName? : Value → Option ParameterLocation
  | .str s => [path, header, cookie, query].find? (·.name == s)
  | _ => none

@[simp] theorem ofName?_name (l : ParameterLocation) : ofName? (.str l.name) = some l := by
  cases l <;> rfl

end ParameterLocation

structure Parameter where
  name : String
  location : ParameterLocation
  schema : Value
  required : Bool
  deriving Repr

/-- What a parameter is known by. -/
def Parameter.key (p : Parameter) : String × ParameterLocation := (p.name, p.location)

/-- A declared parameter.  One in the path is required whatever the declaration says. -/
def resolveParameter (declaration : Value) : Except Fault Parameter := do
  if declaration.isNull then
    throw (.ofBuild { cause := .notProvided "parameter", field := .str "parameter" })
  let name ← match ← fieldOf declaration "name" with
    | .str name => pure name
    | _ => throw (.ofBuild { cause := .namelessParameter, field := .str "name" })
  let place ← fieldOf declaration "in"
  let location ← match ParameterLocation.ofName? place with
    | some location => pure location
    | none => throw (.ofBuild { cause := .unknownLocation name place, field := .str "in" })
  let schema ← deriveSchema declaration (.str s!"parameter '{name}'")
  let required ← fieldOf declaration "required"
  return ⟨name, location, schema, location == .path || required.truthy⟩

/-- The parameters of a list in order; the first that fails decides. -/
def resolveEach : List Value → Except Fault (List Parameter)
  | [] => .ok []
  | declaration :: rest => do
      let first ← resolveParameter declaration
      let others ← resolveEach rest
      .ok (first :: others)

/-- A declared list of parameters, which may be left out. -/
def resolveParameters : Value → Except Fault (List Parameter)
  | .null => .ok []
  | .list declarations => resolveEach declarations
  | .pair first second => resolveEach [first, second]
  | other => .error (.ofBuild
      { cause := .parametersNotList other.kindName, field := .str "parameters" })

/-- Whether an operation declares the parameter itself. -/
def overridden (operationLevel : List Parameter) (p : Parameter) : Bool :=
  operationLevel.any (·.key == p.key)

/-- The parameters of an operation, and those of its path item that it does not override. -/
def mergeResolved (operationLevel pathLevel : List Parameter) : List Parameter :=
  operationLevel ++ pathLevel.filter (!overridden operationLevel ·)

/-- Notes for the parameters that are overridden. -/
def overrideNotes (operationLevel pathLevel : List Parameter) : List Note :=
  (pathLevel.filter (overridden operationLevel)).map fun p =>
    ⟨.parameters, s!"Parameter {p.name} in {p.location.name} overridden at operation level"⟩

/-- The merged parameters of declared lists.  The operation's list is read first. -/
def mergeParameters (pathLevel operationLevel : Value) : Traced Fault (List Parameter) := do
  let operationParameters ← Traced.lift (resolveParameters operationLevel)
  let pathParameters ← Traced.lift (resolveParameters pathLevel)
  ⟨overrideNotes operationParameters pathParameters,
    .ok (mergeResolved operationParameters pathParameters)⟩

end ApiContract.Schema
