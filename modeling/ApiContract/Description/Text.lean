import ApiContract.Fault
import ApiContract.Json.Reader
import ApiContract.Yaml.Reader

/-!
# Descriptions as text

A description is a JSON or YAML text that holds a mapping.  With a known format the text is read
strictly in it; without one JSON is tried first and YAML second.
-/

namespace ApiContract.Description

/-- Formats of a description. -/
inductive Format where
  | json
  | yaml
  deriving DecidableEq, Repr

/-- The format of a name. -/
def Format.ofName? (name : String) : Option Format :=
  if name == "json" then some .json else if name == "yaml" then some .yaml else none

/-- Reads YAML; `refused` is the failure of a malformed text. -/
def readYaml (refused : SourceError) (text : List Char) : Except Fault Value :=
  match Yaml.read text with
  | .ok v => .ok v
  | .error .malformed => .error (.source refused)
  | .error .unreadable => .error .misfit

/-- The value of a text. -/
def valueOf (format : Option Format) (origin : String) (text : List Char) : Except Fault Value :=
  match format with
  | some .yaml => readYaml (.badYaml origin) text
  | some .json => match Json.read text with
    | .ok v => .ok v
    | .error (.malformed flaw position) => .error (.source (.badJson origin flaw text position))
    | .error .oversizedNumber => .error .misfit
  | none => match Json.read text with
    | .ok v => .ok v
    | .error (.malformed flaw position) => readYaml (.neitherFormat origin flaw text position) text
    | .error .oversizedNumber => .error .misfit

/-- The description that a text holds. -/
def ofText (format : Option Format) (origin : String) (text : List Char) : Except Fault Value := do
  match ← valueOf format origin text with
  | .map es => .ok (.map es)
  | other => .error (.source (.notMapping origin other))

end ApiContract.Description
