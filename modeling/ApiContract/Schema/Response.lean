import ApiContract.Schema.Request

/-!
# Responses

Every status of an operation contributes branches to the choice of responses: one for every
content type, or a single one when the response has no body.  A branch pins the status, and one
with a body always requires the headers, the body and the `Content-Type` header.
-/

namespace ApiContract.Schema

structure Header where
  name : String
  schema : Value
  required : Bool
  deriving Repr

/-- A declared response.  A response of the component library has no status; one without a usable
media type has no content. -/
structure Response where
  status : Option String
  headers : List Header
  content : Option (List ContentVariant)
  deriving Repr

/-- A declared header. -/
def resolveHeader (name declaration : Value) : Except Fault Header := do
  if name.isNull then
    throw (.ofBuild { cause := .notProvided "header name", field := .str "header name" })
  if declaration.isNull then throw (.ofBuild { cause := .notProvided "header", field := name })
  let schema ← deriveSchema declaration (.str s!"header '{name.shown}'")
  let required ← fieldOf declaration "required"
  return ⟨← nameOf name, schema, required.truthy⟩

/-- Declared headers in order; a null declares none. -/
def resolveHeaderEntries : Entries → Except Fault (List Header)
  | [] => .ok []
  | (name, declaration) :: rest =>
      if declaration.isNull then resolveHeaderEntries rest
      else do
        let first ← resolveHeader name declaration
        let others ← resolveHeaderEntries rest
        .ok (first :: others)

/-- The headers of a response. -/
def resolveHeaders (response : Value) : Except Fault (List Header) := do
  if response.isNull then
    throw (.ofBuild { cause := .notProvided "response", field := .str "response" })
  resolveHeaderEntries (← entriesIfAny (← fieldOf response "headers"))

/-- The content of a response, if it has any that is usable. -/
def resolveContent (response : Value) : Except Fault (Option (List ContentVariant)) := do
  if response.isNull then return none
  match ← fieldOf response "content" with
  | .map es =>
      let found ← variants es
      return if found.isEmpty then none else some found
  | _ => return none

/-- A declared response under a status. -/
def resolveResponse (status response : Value) : Except Fault Response := do
  if response.isNull then throw (.ofBuild { cause := .notProvided "response", field := status })
  let headers ← resolveHeaders response
  let content ← resolveContent response
  return ⟨if status.isNull then none else some status.shown, headers, content⟩

/-- Declared responses in order; a null and an extension declare none. -/
def resolveResponseEntries : Entries → Except Fault (List Response)
  | [] => .ok []
  | (status, response) :: rest =>
      if response.isNull || isExtension status then resolveResponseEntries rest
      else do
        let first ← resolveResponse (.str status.shown) response
        let others ← resolveResponseEntries rest
        .ok (first :: others)

/-- A declared mapping of responses, which may be left out. -/
def resolveResponses (responses : Value) : Except Fault (List Response) := do
  resolveResponseEntries (← entriesIfAny responses)

/-- Adds a header to a bucket of headers. -/
def addHeader (bucket : ObjectNode Node) (h : Header) : ObjectNode Node :=
  let named := bucket.set (.str h.name) (.given h.schema)
  if h.required then named.require (.str h.name) else named

/-- What all branches of a response share: the status, if it is to be pinned, and the declared
headers. -/
def responseBase (r : Response) (includeStatus : Bool) : ObjectNode Node :=
  let withStatus : ObjectNode Node := match r.status with
    | some status =>
        if includeStatus then
          (ObjectNode.closed.set (.str "status") (.pinned (.str status))).require (.str "status")
        else .closed
    | none => .closed
  if r.headers.isEmpty then withStatus
  else
    (withStatus.set (.str "headers") (.object (r.headers.foldl addHeader .unrestricted))).require
      (.str "headers")

/-- The branches of a response. -/
def responseBranches (r : Response) (includeStatus : Bool) : List (ObjectNode Node) :=
  match r.content with
  | some (first :: rest) => (first :: rest).map (withContent (responseBase r includeStatus) true)
  | _ => [responseBase r includeStatus]

/-- The word for a status in notes. -/
def statusWord (r : Response) : String := r.status.getD "None"

/-- Notes on the branches of every response. -/
def responseNotes (responses : List Response) : List Note :=
  responses.map fun r =>
    ⟨.responses, s!"Response {statusWord r}: {(responseBranches r true).length} branch(es)"⟩

/-- The schema of the responses of an operation. -/
def responsesSchema (responses : List Response) : Traced Fault Node :=
  ⟨responseNotes responses, .ok (choice (responses.flatMap (responseBranches · true)))⟩

end ApiContract.Schema
