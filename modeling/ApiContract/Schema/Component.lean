import ApiContract.Schema.Response

/-!
# Components

Five kinds of components take part in the schemas: schemas, responses, parameters, request bodies
and headers.  Every member has the shape of its inline counterpart; a response has no status.

The *token* is the flat table of all members by kind and name; the *component schema* is an object
that requires every member of every kind.  Kinds that are absent or empty are in neither.
-/

namespace ApiContract.Schema

inductive ComponentKind where
  | schemas
  | responses
  | parameters
  | requestBodies
  | headers
  deriving DecidableEq, Repr

namespace ComponentKind

def name : ComponentKind → String
  | .schemas => "schemas"
  | .responses => "responses"
  | .parameters => "parameters"
  | .requestBodies => "requestBodies"
  | .headers => "headers"

def all : List ComponentKind := [schemas, responses, parameters, requestBodies, headers]

/-- The kind that a field of the components stands for. -/
def ofName? : Value → Option ComponentKind
  | .str s => all.find? (·.name == s)
  | _ => none

end ComponentKind

/-- The base of a component body: headers alone. -/
def bodyBase : ObjectNode Node :=
  ObjectNode.closed.set (.str "headers") (.object .unrestricted)

/-- A component body: a branch for every variant, or the base alone. -/
def bodyComponent : Option Body → Node
  | none => choice [bodyBase]
  | some body => choice (bodyBranches bodyBase body)

/-- The node of one component. -/
def componentNode (kind : ComponentKind) (name declaration : Value) : Except Fault Node :=
  match kind with
  | .schemas => .ok (.given declaration)
  | .responses =>
      if declaration.isNull then
        .error (.ofBuild { cause := .notProvided "response", field := name })
      else (resolveResponse .null declaration).map fun r => choice (responseBranches r false)
  | .parameters => (resolveParameter declaration).map fun p => .given p.schema
  | .requestBodies =>
      if declaration.isNull then
        .error (.ofBuild { cause := .notProvided "request body", field := name })
      else (resolveBody declaration).map bodyComponent
  | .headers => (resolveHeader name declaration).map fun h => .given h.schema

/-- The nodes of the members of one kind. -/
def componentNodes (kind : ComponentKind) : Entries → Except Fault (Entries Node)
  | [] => .ok []
  | (name, declaration) :: rest => do
      let first ← componentNode kind name declaration
      let others ← componentNodes kind rest
      .ok ((name, first) :: others)

/-- The flat table of components: kinds in declaration order, each with its members. -/
abbrev Token := List (ComponentKind × Entries Node)

/-- The members of one declared kind; fields that are no kind, and empty kinds, have none. -/
def tokenEntry (field members : Value) : Traced Fault Token :=
  match ComponentKind.ofName? field with
  | none => pure []
  | some kind =>
      if !members.truthy then pure []
      else do
        let nodes ← Traced.lift (do componentNodes kind (← entriesOf members))
        Traced.note .components s!"Component {kind.name}: {nodes.length} member(s)"
        return [(kind, nodes)]

/-- The table of declared components. -/
def tokenOfEntries : Entries → Traced Fault Token
  | [] => pure []
  | (field, members) :: rest => do
      let first ← tokenEntry field members
      let others ← tokenOfEntries rest
      return first ++ others

/-- The component table of a description. -/
def componentsToken (document : Value) : Traced Fault Token := do
  if document.isNull then Traced.fail (.ofBuild
    { cause := .notProvided "document", field := .str "document" })
  let entries ← Traced.lift (do entriesIfAny (← fieldOf document "components"))
  tokenOfEntries entries

/-- The table as a value. -/
def Token.toValue (token : Token) : Value :=
  .map (token.map fun e => (.str e.1.name, .map (Node.entriesToValues e.2)))

/-- The object that requires every member of one kind. -/
def kindNode (members : Entries Node) : ObjectNode Node :=
  (⟨members, [], .bool false⟩ : ObjectNode Node).requireAll (Entries.keys members)

/-- The object that requires every kind. -/
def componentsNode (token : Token) : ObjectNode Node :=
  token.foldl (fun root e =>
    (root.set (.str e.1.name) (.object (kindNode e.2))).require (.str e.1.name)) .closed

/-- The component schema of a description. -/
def componentsSchema (document : Value) : Traced Fault Node := do
  return .object (componentsNode (← componentsToken document))

end ApiContract.Schema
