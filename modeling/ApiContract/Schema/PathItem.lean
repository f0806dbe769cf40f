import ApiContract.Schema.Declared

/-!
# Path items

The members of a collection and their operations, once as a list in declaration order and once by
key and method.  The listing skips extensions, nulls and fields that are no methods; the look-up
reports what is absent.
-/

namespace ApiContract.Schema

/-- Methods that a path item can declare an operation for. -/
def methodNames : List String :=
  ["get", "put", "post", "delete", "options", "head", "patch", "trace"]

/-- The failure for an argument that is null. -/
def notProvided (argument : String) : Fault :=
  .ofBuild { cause := .notProvided argument, field := .str argument }

/-- The declaration of a collection, null when the description has none. -/
def collectionOf (collection : Collection) (document : Value) : Except Fault Value :=
  if document.isNull then .error (notProvided "document")
  else fieldOf document collection.field

/-- The members of a declared collection in order. -/
def listedItems (entries : Entries) : Entries :=
  entries.filter fun e => !e.2.isNull && !isExtension e.1

/-- The members of a collection in declaration order. -/
def items (collection : Collection) (document : Value) : Except Fault Entries := do
  return listedItems (← entriesIfAny (← collectionOf collection document))

/-- The member of a collection under a key. -/
def item (collection : Collection) (document key : Value) : Except Fault Value := do
  if key.isNull then throw (notProvided collection.label)
  let declaration ← collectionOf collection document
  if declaration.isNull then
    throw (.ofBuild { cause := .noCollection collection, field := .str collection.field })
  let found ← if isExtension key then pure .null else memberOf declaration key
  if found.isNull then
    throw (.ofBuild { cause := .noItem collection, path := key, field := .str collection.field })
  return found

/-- The member of a collection under a key, and its operation for a method. -/
def operation (collection : Collection) (document key method : Value) :
    Except Fault (Value × Value) := do
  if method.isNull then
    throw (.ofBuild { cause := .notProvided "operation", path := key, field := .str "operation" })
  let pathItem ← item collection document key
  let found ← memberOf pathItem method
  if found.isNull then
    throw (.ofBuild { cause := .noOperation collection, path := key, method })
  return (pathItem, found)

/-- The method that an entry of a path item declares an operation for. -/
def methodOf? : Value × Value → Option String
  | (.str name, declaration) =>
      if methodNames.contains name && !declaration.isNull then some name else none
  | _ => none

/-- The methods that a path item declares operations for, in declaration order. -/
def methods (pathItem : Value) : Except Fault (List String) := do
  return (← entriesOf pathItem).filterMap methodOf?

/-- The collection that a name stands for. -/
def collectionNamed (name : Value) : Except Fault Collection := do
  if name.isNull then throw (notProvided "group name")
  if !name.isKey then throw .misfit
  match Collection.all.find? fun c => name.same (.str c.field) with
  | some collection => return collection
  | none => throw (.ofBuild { cause := .unknownGroup name, field := .str "group" })

end ApiContract.Schema
