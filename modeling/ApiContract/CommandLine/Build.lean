import ApiContract.CommandLine.Command
import ApiContract.CommandLine.Session
import ApiContract.Description.Source

/-!
# The command that builds

The root schemas of a description go to standard output or to a file.  The file is written last,
by way of a draft, so that a run that fails leaves it as it was.
-/

namespace ApiContract.CommandLine

open Host Schema

/-- A number on the command line as a setting; null when it is not given. -/
def timeoutFlag (timeout : Option Binary64) : Value :=
  match timeout with
  | some x => .float x
  | none => .null

def indentFlag (indent : Option Nat) : Value :=
  match indent with
  | some n => .int n
  | none => .null

/-- Whether a description declares path items in one of its collections. -/
def declaresItems (description : Value) : Except Fault Bool := do
  let paths ← fieldOf description Collection.paths.field
  if paths.truthy then return true
  return (← fieldOf description Collection.webhooks.field).truthy

/-- The roots to write, in their own order whatever the order of the request. -/
def chosenRoots (requested : List RootName) : List RootName :=
  if requested.isEmpty then RootName.all else RootName.all.filter (requested.contains ·)

/-- The settings of a build, and the root schemas. -/
def prepareBuild (request : BuildRequest) : Run (Settings × Value) := do
  let settings ← Run.change (Settings.load ·
    ⟨indentFlag request.indent, .null, timeoutFlag request.timeout⟩)
  let description ← Run.stage
    (Description.loadInline (← Run.world) settings.timeout request.source)
  let roots ← Run.stage (buildRoots description)
  if !(← Run.ofExcept (declaresItems description)) then
    Run.say .warning "Document declares no paths or webhooks; both trees are empty."
  let names := chosenRoots request.roots
  Run.say .debug ("Built roots: " ++ String.intercalate ", " (names.map RootName.name))
  return (settings, roots.select names)

/-- Writes a text to a file, or fails and leaves it as it was. -/
def writeFile (path : Path) (text : String) : Run Unit :=
  Run.change fun w => match w.replaceFile path text with
    | (next, true) => (next, .ok ())
    | (next, false) => (next, .error .misfit)

def build (request : BuildRequest) : Run Unit := do
  let (settings, schemas) ← prepareBuild request
  let layout := Json.Layout.ofIndent settings.indent
  match request.output with
  | none => Run.document layout schemas
  | some target =>
      let text ← Run.textOrMisfit (Json.write? layout schemas)
      let path := Path.ofString target
      writeFile path (text ++ "\n")
      let count := (chosenRoots request.roots).length
      Run.say .success s!"Wrote {count} root schema(s) to {path.text}"

end ApiContract.CommandLine
