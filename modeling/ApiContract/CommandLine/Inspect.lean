import ApiContract.CommandLine.Build

/-!
# The commands that inspect

One row for every operation of a description with the numbers of its branches, or one row for
every kind of components with the number of its members and the first of their names.
-/

namespace ApiContract.CommandLine

open Schema

/-- The description that is asked for. -/
def loadRequested (request : InspectRequest) : Run Value := do
  let settings ← Run.change (Settings.load · ⟨.null, .null, timeoutFlag request.timeout⟩)
  Run.stage (Description.loadInline (← Run.world) settings.timeout request.source)

/-- The number of branches of a choice. -/
def branchCount : Node → Nat
  | .oneOf branches => branches.length
  | _ => 0

def countCell (n : Nat) : Value := .str (toString n)

/-- The row of an operation. -/
def operationRow (collection : Collection) (key : Value) (method : String)
    (shape : OperationShape) : List Value :=
  [.str collection.label, .str (Text.upper method), key, countCell (branchCount shape.request),
    countCell (branchCount shape.responses)]

/-- The rows of some methods under a key. -/
def methodRows (collection : Collection) (description key : Value) :
    List String → Traced Fault (List (List Value))
  | [] => pure []
  | method :: rest => do
      let shape ← buildOperation collection description key (.str method)
      let others ← methodRows collection description key rest
      return operationRow collection key method shape :: others

/-- The rows of some path items. -/
def itemRows (collection : Collection) (description : Value) :
    Entries → Traced Fault (List (List Value))
  | [] => pure []
  | (key, pathItem) :: rest => do
      let rows ← methodRows collection description key (← Traced.lift (methods pathItem))
      let others ← itemRows collection description rest
      return rows ++ others

/-- The rows of some collections. -/
def collectionRows (description : Value) : List Collection → Traced Fault (List (List Value))
  | [] => pure []
  | collection :: rest => do
      let rows ← itemRows collection description (← Traced.lift (items collection description))
      let others ← collectionRows description rest
      return rows ++ others

/-- The rows of all operations of a description. -/
def operationRows (description : Value) : Traced Fault (List (List Value)) :=
  collectionRows description Collection.all

/-- Writes a table, or says that there is nothing to list. -/
def listRows (format : OutputFormat) (titles : List String) (rows : List (List Value))
    (emptyText : String) : Run Unit :=
  if rows.isEmpty then Run.say .info emptyText
  else Run.table format ⟨titles.map .str, rows⟩

def inspectOperations (format : OutputFormat) (request : InspectRequest) : Run Unit := do
  let rows ← Run.stage (operationRows (← loadRequested request))
  listRows format ["Kind", "Method", "Key", "Request branches", "Response branches"] rows
    "No operations defined in this document."

/-- How many member names a row shows. -/
def shownMembers : Nat := 5

/-- The first names of some members; dots say that there are more. -/
def namesText? (names : List Value) : Option String :=
  ((names.take shownMembers).mapM Value.asText?).map fun texts =>
    String.intercalate ", " texts ++ if shownMembers < names.length then "..." else ""

/-- The rows of a component table. -/
def componentRows : Token → Except Fault (List (List Value))
  | [] => .ok []
  | (kind, members) :: rest => do
      let names := Entries.keys members
      match namesText? names with
      | none => .error .misfit
      | some text =>
          let others ← componentRows rest
          .ok ([.str kind.name, countCell names.length, .str text] :: others)

def inspectComponents (format : OutputFormat) (request : InspectRequest) : Run Unit := do
  let token ← Run.stage (componentsToken (← loadRequested request))
  listRows format ["Kind", "Members", "Names"] (← Run.ofExcept (componentRows token))
    "No components defined in this document."

end ApiContract.CommandLine
