import ApiContract.Schema.Component
import ApiContract.Schema.Operation

/-!
# Root schemas

A description gives three root schemas: the tree of its paths, the tree of its webhooks, and its
components.  A tree has a required property for every member of its collection, and carries the
component table so that references into it can be followed.
-/

namespace ApiContract.Schema

/-- The names of the root schemas, in the order in which they are emitted. -/
inductive RootName where
  | paths
  | webhooks
  | components
  deriving DecidableEq, Repr

namespace RootName

def name : RootName → String
  | .paths => "Paths"
  | .webhooks => "Webhooks"
  | .components => "Components"

def all : List RootName := [paths, webhooks, components]

def ofName? (s : String) : Option RootName := all.find? (·.name == s)

end RootName

/-- The tree of a collection. -/
structure Tree where
  members : ObjectNode Node
  components : Token
  deriving Repr

/-- A tree as a value: its object with the component table as one more field. -/
def Tree.toValue (tree : Tree) : Value :=
  match (Node.object tree.members).toValue with
  | .map es => .map (es ++ [(.str "components", tree.components.toValue)])
  | v => v

/-- Members of a collection added as required properties. -/
def addItems (collection : Collection) (document : Value) (base : ObjectNode Node) :
    Entries → Traced Fault (ObjectNode Node)
  | [] => pure base
  | (key, _) :: rest => do
      let schema ← itemSchema collection document key
      addItems collection document ((base.set key (.object schema)).require key) rest

/-- The tree of a collection; without the collection it is empty. -/
def buildTree (collection : Collection) (document : Value) : Traced Fault Tree := do
  let token ← componentsToken document
  let declaration ← Traced.lift (collectionOf collection document)
  if declaration.isNull then
    Traced.note .tree s!"Document has no {collection.field}; emitting an empty tree"
    return ⟨.closed, token⟩
  let listed ← Traced.lift (items collection document)
  let members ← addItems collection document .closed listed
  Traced.note .tree s!"Built {members.required.length} {collection.field}"
  return ⟨members, token⟩

/-- The root schemas of a description. -/
structure Roots where
  paths : Tree
  webhooks : Tree
  components : ObjectNode Node
  deriving Repr

namespace Roots

/-- One root schema as a value. -/
def schema (roots : Roots) : RootName → Value
  | .paths => roots.paths.toValue
  | .webhooks => roots.webhooks.toValue
  | .components => (Node.object roots.components).toValue

/-- Some of the root schemas by name. -/
def select (roots : Roots) (names : List RootName) : Value :=
  .map (names.map fun n => (.str n.name, roots.schema n))

def toValue (roots : Roots) : Value := roots.select RootName.all

end Roots

/-- Builds the root schemas of a description whose references are expanded. -/
def buildRoots (document : Value) : Traced Fault Roots := do
  let paths ← buildTree .paths document
  let webhooks ← buildTree .webhooks document
  let token ← componentsToken document
  return ⟨paths, webhooks, componentsNode token⟩

end ApiContract.Schema
