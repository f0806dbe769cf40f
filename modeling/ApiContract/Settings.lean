import ApiContract.Value

/-!
# Settings

The three settings of the program in their two sections.  As a value, settings are a mapping of
sections, each a mapping of its settings.
-/

namespace ApiContract

/-- How data is written to standard output.  `auto` is decided when a run starts. -/
inductive OutputFormat where
  | auto
  | json
  | plain
  | rich
  deriving DecidableEq, Repr

namespace OutputFormat

def name : OutputFormat → String
  | .auto => "auto"
  | .json => "json"
  | .plain => "plain"
  | .rich => "rich"

def all : List OutputFormat := [auto, json, plain, rich]

def ofName? (s : String) : Option OutputFormat := all.find? (·.name == s)

@[simp] theorem ofName?_name (f : OutputFormat) : ofName? f.name = some f := by
  cases f <;> rfl

end OutputFormat

structure Settings where
  format : OutputFormat
  indent : Nat
  timeout : Binary64
  deriving DecidableEq, Repr

/-- A setting by its section and its name. -/
structure SettingKey where
  part : String
  name : String
  deriving DecidableEq, Repr

namespace SettingKey

def format : SettingKey := ⟨"output", "format"⟩
def indent : SettingKey := ⟨"output", "indent"⟩
def timeout : SettingKey := ⟨"loader", "timeout"⟩

/-- All settings, in the order in which they are reported. -/
def all : List SettingKey := [format, indent, timeout]

/-- Section and name with a dot between them. -/
def text (k : SettingKey) : String := k.part ++ "." ++ k.name

/-- The setting that a text names: what stands before its first dot is the section. -/
def ofText (s : String) : SettingKey :=
  let lead := s.toList.takeWhile (· != '.')
  ⟨String.ofList lead, String.ofList (s.toList.drop (lead.length + 1))⟩

end SettingKey

namespace Settings

def default : Settings := ⟨.auto, 2, .thirty⟩

/-- Settings as sections. -/
def toEntries (s : Settings) : Entries :=
  [(.str "output", .map [(.str "format", .str s.format.name), (.str "indent", .int s.indent)]),
    (.str "loader", .map [(.str "timeout", .float s.timeout)])]

def toValue (s : Settings) : Value := .map s.toEntries

end Settings

end ApiContract
