import ApiContract.Settings.Coercion

/-!
# Layers of settings

Settings come in layers.  An overlay replaces what it declares section by section: within a
section that is a mapping on both sides setting by setting, and otherwise the section as a whole.
-/

namespace ApiContract.Settings

/-- Entries put over other entries. -/
def update (base overlay : Entries) : Entries :=
  overlay.foldl (fun acc e => Entries.insert acc e.1 e.2) base

/-- One section put over the sections below. -/
def overlaySection (sections : Entries) (e : Value × Value) : Entries :=
  match e.2, Entries.get? sections e.1 with
  | .map fields, some (.map below) => Entries.insert sections e.1 (.map (update below fields))
  | v, _ => Entries.insert sections e.1 v

/-- Sections put over sections. -/
def layer (base overlay : Entries) : Entries := overlay.foldl overlaySection base

/-- A layer of a single setting. -/
def single (key : SettingKey) (v : Value) : Entries :=
  [(.str key.part, .map [(.str key.name, v)])]

/-- A setting put over sections, unless it is null. -/
def layerIfGiven (sections : Entries) (key : SettingKey) (v : Value) : Entries :=
  if v.isNull then sections else layer sections (single key v)

/-- Settings given on the command line; null is not given. -/
structure Flags where
  indent : Value
  format : Value
  timeout : Value
  deriving Repr

def Flags.none : Flags := ⟨.null, .null, .null⟩

/-- The layers above the user's settings: the project's, those of the environment, and those of
the command line.  An empty variable gives nothing. -/
structure Upper where
  project : Option Entries
  indentVariable : String
  timeoutVariable : String
  flags : Flags
  deriving Repr

/-- The value of a variable as a layer. -/
def variableValue (text : String) : Value := if text.isEmpty then .null else .str text

/-- All layers put over the user's settings. -/
def combine (user : Settings) (upper : Upper) : Entries :=
  let withProject := layer user.toEntries (upper.project.getD [])
  let withIndent := layerIfGiven withProject .indent (variableValue upper.indentVariable)
  let withTimeout := layerIfGiven withIndent .timeout (variableValue upper.timeoutVariable)
  let withFlags := layerIfGiven withTimeout .indent upper.flags.indent
  let withFormat := layerIfGiven withFlags .format upper.flags.format
  layerIfGiven withFormat .timeout upper.flags.timeout

/-- The settings that all layers give together. -/
def resolve (user : Settings) (upper : Upper) : Except SettingsError Settings :=
  (ofEntries (combine user upper)).mapError .badCombination

/-- The settings with one of them set to a text.  Keys that name no setting are refused. -/
def set (user : Settings) (keyText value : String) : Except SettingsError Settings :=
  let key := SettingKey.ofText keyText
  if SettingKey.all.contains key then
    (ofEntries (layer user.toEntries (single key (.str value)))).mapError (.badValue keyText)
  else .error (.unknownKey keyText (SettingKey.all.map SettingKey.text))

end ApiContract.Settings
