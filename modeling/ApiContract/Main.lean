import ApiContract.CommandLine.Program

/-!
# The program on a machine

What a run can see is gathered first: the variables that the program knows, and what stands at the
places that its paths lead to.  The run itself is a function of that.  Afterwards its files and its
texts are written.

Addresses on the net cannot be reached from here.
-/

namespace ApiContract.Machine

open Host CommandLine

/-- The variables that the program looks at. -/
def variableNames : List String :=
  ["HOME", "XDG_CONFIG_HOME", "XDG_DATA_HOME", "NO_COLOR", "TERM", "SPECSHAPE_INDENT",
    "SPECSHAPE_TIMEOUT"]

def gatherEnvironment : IO (List (String × String)) := do
  let found ← variableNames.mapM fun name => return (name, ← IO.getEnv name)
  return found.filterMap fun v => v.2.map fun value => (v.1, value)

/-- The text of a place. -/
def placeText (place : Place) : String := "/" ++ String.intercalate "/" place

/-- The place that a path leads to from a working directory. -/
def placeOf (cwd : Place) (p : Path) : Place :=
  p.parts.foldl (fun place step => if step == ".." then place.dropLast else place ++ [step])
    (if p.isAbsolute then [] else cwd)

/-- What stands at a place. -/
def entryAt (place : Place) : IO (Option Entry) := do
  let isDirectory ←
    try
      let _ ← IO.FS.realPath (placeText place ++ "/.")
      pure true
    catch _ => pure false
  if isDirectory then return some .directory
  try
    let octets ← IO.FS.readBinFile (placeText place)
    return some (.file octets.toList)
  catch _ => return none

/-- A file system with what stands on the way to a place. -/
def gatherAlong (fs : FileSystem) (place : Place) : IO FileSystem := do
  let ways := (List.range place.length).map fun n => place.take (n + 1)
  ways.foldlM (fun fs way => do
    match ← entryAt way with
    | some entry => return fs.put way entry
    | none => return fs) fs

/-- The paths that a command names. -/
def namedPaths : Option Command → List Path
  | some (.build request) =>
      Path.ofString request.source :: request.output.toList.map Path.ofString
  | some (.inspectOperations request) | some (.inspectComponents request) =>
      [Path.ofString request.source]
  | _ => []

/-- Whether a command reads all of standard input. -/
def readsInput : Option Command → Bool
  | some (.build request) => request.source == "-"
  | some (.inspectOperations request) | some (.inspectComponents request) => request.source == "-"
  | _ => false

partial def readAll (input : IO.FS.Stream) (before : String) : IO String := do
  let line ← input.getLine
  if line.isEmpty then return before else readAll input (before ++ line)

/-- The name of the system, where it tells its name. -/
def platformName : IO String := do
  try return (← IO.FS.readFile "/proc/sys/kernel/ostype").trimAscii.toString catch _ => return ""

/-- All that a run with some arguments can see. -/
def gather (command : Option Command) : IO World := do
  let cwd := (Path.ofString (← IO.currentDir).toString).parts
  let bare : World :=
    { files := .empty, cwd, environment := ← gatherEnvironment, platform := ← platformName,
      replies := [], stdin := "", isTerminal := ← (← IO.getStdout).isTty,
      stamp := toString (← IO.monoMsNow) }
  let paths := [Settings.userFile bare, Settings.projectFile bare, crashLog bare, bare.cwdPath] ++
    namedPaths command
  let files ← (paths.map (placeOf cwd)).foldlM gatherAlong FileSystem.empty
  let stdin ← if readsInput command then readAll (← IO.getStdin) "" else pure ""
  return { bare with files, stdin := String.ofList (unifyBreaks stdin.toList) }

/-- Writes what a run has changed; a file is replaced as a whole. -/
def apply (before after : FileSystem) : IO Unit := do
  for (place, entry) in after.entries do
    if before.lookup? place != some entry then
      match entry with
      | .directory => IO.FS.createDirAll (placeText place)
      | .file octets =>
          let draft := placeText (place.dropLast ++ ["." ++ place.getLastD "" ++ ".tmp"])
          IO.FS.writeBinFile draft ⟨octets.toArray⟩
          IO.FS.rename draft (placeText place)

/-- Ends a run: shows what has not been shown of its texts, and writes its files. -/
def settle (w : World) (outcome : Outcome) (shown : Nat) : IO UInt32 := do
  apply w.files outcome.world.files
  (← IO.getStdout).putStr (outcome.output.drop shown).toString
  (← IO.getStderr).putStr outcome.errors
  return outcome.exitCode.toUInt32

/-- Runs with the lines typed so far.  When the run waits for more, what it says is shown and one
more line is read. -/
partial def converse (w : World) (args : List String) (shown : Nat) : IO UInt32 := do
  let outcome := run w args
  if outcome.isStarved then
    let output ← IO.getStdout
    output.putStr (outcome.output.drop shown).toString
    output.flush
    let line ← (← IO.getStdin).getLine
    if line.isEmpty then settle w outcome outcome.output.length
    else converse { w with stdin := w.stdin ++ line } args outcome.output.length
  else settle w outcome shown

end ApiContract.Machine

def main (args : List String) : IO UInt32 := do
  let w ← ApiContract.Machine.gather (ApiContract.CommandLine.commandOf? args)
  ApiContract.Machine.converse w args 0
