import ApiContract.Schema.Node
import ApiContract.Schema.Parameter

/-!
# Requests

A request is an object with a bucket for the parameters of every location and, when the operation
takes a body, the body.  Without a body there is one branch.  With a body there is one branch for
every content type, which pins the `Content-Type` header to it; only a required body makes the
body and the header required.
-/

namespace ApiContract.Schema

/-- A declared body: its variants, of which there is at least one when it was read from a
description, and whether it must be sent. -/
structure Body where
  content : List ContentVariant
  required : Bool
  deriving Repr

/-- A declared request body.  One without a usable media type is none. -/
def resolveBody (requestBody : Value) : Except Fault (Option Body) := do
  if !requestBody.truthy then return none
  let content ← match ← fieldOf requestBody "content" with
    | .map es => variants es
    | _ => pure []
  if content.isEmpty then return none
  return some ⟨content, (← fieldOf requestBody "required").truthy⟩

/-- The header that names the content type. -/
def contentTypeName : Value := .str "Content-Type"

/-- The bucket of headers of a message; a message without one gets an unrestricted one. -/
def headersOf (message : ObjectNode Node) : ObjectNode Node :=
  ((message.property? "headers").bind Node.asObject?).getD .unrestricted

/-- A message that carries one variant of its body. -/
def withContent (message : ObjectNode Node) (required : Bool) (variant : ContentVariant) :
    ObjectNode Node :=
  let pinned := (headersOf message).set contentTypeName (.pinned (.str variant.contentType))
  let headers := if required then pinned.require contentTypeName else pinned
  let whole := (message.set (.str "headers") (.object headers)).set (.str "body")
    (.given variant.schema)
  if required then whole.requireAll [.str "headers", .str "body"] else whole

/-- One branch for every variant of a body. -/
def bodyBranches (base : ObjectNode Node) (body : Body) : List (ObjectNode Node) :=
  body.content.map (withContent base body.required)

/-- A choice between objects. -/
def choice (branches : List (ObjectNode Node)) : Node :=
  .oneOf (branches.map .object)

/-- The bucket of a location. -/
def bucketName : ParameterLocation → String
  | .path => "path"
  | .header => "headers"
  | .cookie => "cookies"
  | .query => "query"

/-- Locations in the order of their buckets. -/
def bucketOrder : List ParameterLocation := [.path, .header, .cookie, .query]

/-- Adds a parameter to a bucket. -/
def addParameter (bucket : ObjectNode Node) (p : Parameter) : ObjectNode Node :=
  let named := bucket.set (.str p.name) (.given p.schema)
  if p.required then named.require (.str p.name) else named

/-- The bucket of a location.  Only the one for the path admits no further names. -/
def bucket (parameters : List Parameter) (location : ParameterLocation) : ObjectNode Node :=
  (parameters.filter (·.location == location)).foldl addParameter
    (if location = .path then .closed else .unrestricted)

/-- Adds the bucket of a location to a request; one that names something is required. -/
def addBucket (parameters : List Parameter) (request : ObjectNode Node)
    (location : ParameterLocation) : ObjectNode Node :=
  let contents := bucket parameters location
  let name : Value := .str (bucketName location)
  let whole := request.set name (.object contents)
  if contents.properties.isEmpty then whole else whole.require name

/-- A request without a body. -/
def requestBase (parameters : List Parameter) : ObjectNode Node :=
  bucketOrder.foldl (addBucket parameters) .closed

/-- The branches of a request. -/
def requestBranches (parameters : List Parameter) (body : Option Body) : List (ObjectNode Node) :=
  match body with
  | none => [requestBase parameters]
  | some body =>
      if body.content.isEmpty then [requestBase parameters]
      else bodyBranches (requestBase parameters) body

/-- The word for a flag in notes. -/
def flagWord (b : Bool) : String := if b then "True" else "False"

/-- Notes on the body of a request. -/
def bodyNotes : Option Body → List Note
  | some body =>
      if body.content.isEmpty then []
      else [⟨.request, s!"Request body: {body.content.length} content type(s), " ++
        s!"required={flagWord body.required}"⟩]
  | none => []

/-- The schema of a request. -/
def requestSchema (parameters : List Parameter) (body : Option Body) : Traced Fault Node :=
  ⟨bodyNotes body, .ok (choice (requestBranches parameters body))⟩

end ApiContract.Schema
