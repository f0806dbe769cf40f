import ApiContract.Json.Fault

/-!
# Failures of settings

Why a settings file or a value is refused.  A list of mismatches says which settings have values
that cannot be used and what is wrong with each.
-/

namespace ApiContract

/-- What is wrong with the value of a setting. -/
inductive Problem where
  | notMember
  | notWholeText
  | oversizedWhole
  | fraction
  | notFinite
  | notWhole
  | tooSmall
  | notNumberText
  | notNumber
  | notPositive
  | notSection
  deriving DecidableEq, Repr

def Problem.name : Problem → String
  | .notMember => "literal_error"
  | .notWholeText => "int_parsing"
  | .oversizedWhole => "int_parsing_size"
  | .fraction => "int_from_float"
  | .notFinite => "finite_number"
  | .notWhole => "int_type"
  | .tooSmall => "greater_than_equal"
  | .notNumberText => "float_parsing"
  | .notNumber => "float_type"
  | .notPositive => "greater_than"
  | .notSection => "model_type"

/-- A setting, or a whole section, and what is wrong with its value. -/
structure Mismatch where
  location : List String
  problem : Problem
  deriving DecidableEq, Repr

/-- The files that settings are read from. -/
inductive SettingsFile where
  | user
  | project
  deriving DecidableEq, Repr

def SettingsFile.label : SettingsFile → String
  | .user => "global config"
  | .project => "project config"

/-- Why settings are refused. -/
inductive SettingsError where
  | badJson (file : SettingsFile) (path : String) (flaw : Json.Flaw) (text : List Char)
      (position : Nat)
  | notMapping (file : SettingsFile) (path : String)
  | badFile (file : SettingsFile) (path : String) (mismatches : List Mismatch)
  | badCombination (mismatches : List Mismatch)
  | unknownKey (key : String) (known : List String)
  | badValue (key : String) (mismatches : List Mismatch)
  deriving Repr

namespace SettingsError

/-- Stands for the words in which mismatches would be told. -/
def mismatchMark : String := "<validation>"

/-- The mismatches of an error, if it has any. -/
def mismatches : SettingsError → List Mismatch
  | .badFile _ _ mismatches | .badCombination mismatches | .badValue _ mismatches => mismatches
  | _ => []

def message : SettingsError → String
  | .badJson file path flaw text position =>
      s!"Invalid {file.label} at {path}: {flaw.message text position}"
  | .notMapping file path => s!"Invalid {file.label} at {path}: expected a JSON object"
  | .badFile file path _ => s!"Invalid {file.label} at {path}: {mismatchMark}"
  | .badCombination _ => s!"Invalid configuration: {mismatchMark}"
  | .unknownKey key known =>
      s!"Unknown config key '{key}'. Known keys: " ++ String.intercalate ", " known
  | .badValue key _ => s!"Invalid value for '{key}': {mismatchMark}"

end SettingsError

end ApiContract
