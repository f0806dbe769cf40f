import ApiContract.Fault
import ApiContract.Host.Draft
import ApiContract.Json.Reader
import ApiContract.Json.Writer
import ApiContract.Settings.Layers

/-!
# Settings files

The user's settings lie in a directory of the user, those of a project in the working directory.
Where the platform has base directories the environment may name them; elsewhere one directory in
the home directory serves for all.

A step that fails leaves the files as they were.
-/

namespace ApiContract.Settings

open Host

/-- The name of the program's own directories. -/
def directoryName : String := "specshape"

/-- Whether a platform has base directories: Linux, and the systems whose names end in `BSD`. -/
def hasBaseDirectories (platform : String) : Bool :=
  platform == "Linux" || "BSD".toList.reverse.isPrefixOf platform.toList.reverse

/-- The home directory. -/
def homeDirectory (w : World) : Path :=
  match w.valueOf? "HOME" with
  | some home => if home.isEmpty then ⟨"/", []⟩ else Path.ofString home
  | none => w.cwdPath

/-- A directory of the program: below a base directory that a variable names or that lies in the
home directory, or in the home directory itself. -/
def ownDirectory (w : World) (baseName : String) (fallback : List String) : Path :=
  if hasBaseDirectories w.platform then
    let base := match w.valueOf? baseName with
      | some text => if text.isEmpty then none else some (Path.ofString text)
      | none => none
    (base.getD ⟨(homeDirectory w).root, (homeDirectory w).parts ++ fallback⟩).step directoryName
  else (homeDirectory w).step ("." ++ directoryName)

/-- The directory of the settings. -/
def configDirectory (w : World) : Path := ownDirectory w "XDG_CONFIG_HOME" [".config"]

/-- The directory of the logs. -/
def dataDirectory (w : World) : Path := ownDirectory w "XDG_DATA_HOME" [".local", "share"]

/-- The file of the user's settings. -/
def userFile (w : World) : Path := (configDirectory w).step "config.json"

/-- The file of the project's settings. -/
def projectFile (w : World) : Path := w.cwdPath.step "specshape.json"

/-- The sections that a settings file declares. -/
def readSections (file : SettingsFile) (path : Path) (octets : List UInt8) :
    Except Fault Entries :=
  match decode? octets with
  | none => .error .misfit
  | some text => match Json.read text.toList with
    | .ok (.map es) => .ok es
    | .ok _ => .error (.settings (.notMapping file path.text))
    | .error (.malformed flaw position) =>
        .error (.settings (.badJson file path.text flaw text.toList position))
    | .error .oversizedNumber => .error .misfit

/-- The user's settings, the defaults when there is no file. -/
def readUser (w : World) : Except Fault Settings :=
  match w.read? (userFile w) with
  | none => .ok Settings.default
  | some octets => do
      let sections ← readSections .user (userFile w) octets
      match ofEntries sections with
      | .ok s => .ok s
      | .error mismatches =>
          .error (.settings (.badFile .user (userFile w).text mismatches))

/-- The project's settings, if there are any. -/
def readProject (w : World) : Except Fault (Option Entries) :=
  match w.read? (projectFile w) with
  | none => .ok none
  | some octets => (readSections .project (projectFile w) octets).map some

/-- The user's settings; looking for them makes their directory. -/
def loadUser (w : World) : World × Except Fault Settings :=
  match w.makeDirectory? (configDirectory w) with
  | some ready => (ready, readUser ready)
  | none => (w, .error .misfit)

/-- The settings of a run. -/
def resolveIn (w : World) (flags : Flags) : Except Fault Settings := do
  let user ← readUser w
  let project ← readProject w
  let named (name : String) : String := (w.valueOf? name).getD ""
  (resolve user ⟨project, named "SPECSHAPE_INDENT", named "SPECSHAPE_TIMEOUT",
    flags⟩).mapError .settings

/-- The settings of a run; looking for them makes the user's directory. -/
def load (w : World) (flags : Flags) : World × Except Fault Settings :=
  match w.makeDirectory? (configDirectory w) with
  | some ready => (ready, resolveIn ready flags)
  | none => (w, .error .misfit)

/-- The text of a settings file. -/
def fileText (s : Settings) : String := Json.render (.block 2) 0 s.toValue ++ "\n"

/-- The world with the user's settings written. -/
def save (w : World) (s : Settings) : Except Fault World :=
  match w.replaceFile (userFile w) (fileText s) with
  | (next, true) => .ok next
  | (_, false) => .error .misfit

/-- Sets one of the user's settings and writes them all. -/
def setUser (w : World) (key value : String) : World × Except Fault Settings :=
  let (ready, loaded) := loadUser w
  let step : Except Fault (World × Settings) := do
    let changed ← (Settings.set (← loaded) key value).mapError Fault.settings
    .ok (← save ready changed, changed)
  match step with
  | .ok (next, s) => (next, .ok s)
  | .error e => (ready, .error e)

/-- Writes the defaults. -/
def resetUser (w : World) : Except Fault World := save w Settings.default

end ApiContract.Settings
