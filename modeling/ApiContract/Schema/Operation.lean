import ApiContract.Schema.PathItem
import ApiContract.Schema.Response

/-!
# Operations

The schema of an operation is an object that requires the request and the responses.  A failure
while it is built is reported at the path and the method of the operation.
-/

namespace ApiContract.Schema

/-- The request and the responses of an operation. -/
structure OperationShape where
  request : Node
  responses : Node
  deriving Repr

/-- The schema of an operation. -/
def OperationShape.node (shape : OperationShape) : Node :=
  .object (((ObjectNode.closed.set (.str "request") shape.request).set
    (.str "responses") shape.responses).requireAll [.str "request", .str "responses"])

/-- The parameters of an operation and its path item, and the body. -/
def operationShape (pathItem declaration : Value) : Traced Fault OperationShape := do
  let pathLevel ← Traced.lift (fieldOf pathItem "parameters")
  let operationLevel ← Traced.lift (fieldOf declaration "parameters")
  let parameters ← mergeParameters pathLevel operationLevel
  let body ← Traced.lift (do resolveBody (← fieldOf declaration "requestBody"))
  let request ← requestSchema parameters body
  let responses ← Traced.lift (do resolveResponses (← fieldOf declaration "responses"))
  return ⟨request, ← responsesSchema responses⟩

/-- The note that an operation is about to be built. -/
def operationNote (collection : Collection) (key : Value) (method : String) : Note :=
  ⟨.operation, s!"Building {Text.upper method} {key.shown} ({collection.field})"⟩

/-- The shape of the operation under a key and a method. -/
def buildOperation (collection : Collection) (document key method : Value) :
    Traced Fault OperationShape := do
  if document.isNull then Traced.fail (notProvided "document")
  let (pathItem, declaration) ← Traced.lift (operation collection document key method)
  match method with
  | .str name => do
      Traced.note .operation (operationNote collection key name).text
      (operationShape pathItem declaration).mapError (.locate key method)
  | _ => Traced.fail .misfit

/-- The schema of the operation under a key and a method. -/
def operationSchema (collection : Collection) (document key method : Value) :
    Traced Fault Node := do
  return (← buildOperation collection document key method).node

/-- A path item with the operations of some methods added as required properties. -/
def addOperations (collection : Collection) (document key : Value) (base : ObjectNode Node) :
    List String → Traced Fault (ObjectNode Node)
  | [] => pure base
  | method :: rest => do
      let schema ← operationSchema collection document key (.str method)
      addOperations collection document key
        ((base.set (.str method) schema).require (.str method)) rest

/-- The schema of a path item: a required property for every method. -/
def itemSchema (collection : Collection) (document key : Value) :
    Traced Fault (ObjectNode Node) := do
  if document.isNull then Traced.fail (notProvided "document")
  let pathItem ← Traced.lift (item collection document key)
  addOperations collection document key .closed (← Traced.lift (methods pathItem))

end ApiContract.Schema
