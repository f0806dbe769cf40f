import ApiContract.Json.Fault
import ApiContract.Value.Display

/-!
# Failures of reading a description

Why the text of a description cannot be fetched, is not JSON or YAML, or is not a description of a
supported version.
-/

namespace ApiContract

/-- What a text holds instead of a mapping. -/
def foundInstead (v : Value) : String :=
  if v.isNull then "nothing" else v.kindName

/-- Why a description cannot be read.  `origin` is how messages name the text. -/
inductive SourceError where
  | empty (origin : String)
  | unsupportedFile (source : String)
  | missingFile (source : String)
  | refused (url : String) (status : Int)
  | unreachable (url reason : String)
  | badJson (origin : String) (flaw : Json.Flaw) (text : List Char) (position : Nat)
  | badYaml (origin : String)
  | neitherFormat (origin : String) (flaw : Json.Flaw) (text : List Char) (position : Nat)
  | notMapping (origin : String) (found : Value)
  | tooOld (version : Value)
  | noVersion
  | unsupportedVersion (version : String)
  deriving Repr

namespace SourceError

/-- Stands for the words in which the YAML reader would tell what it did not understand. -/
def yamlMark : String := "<yaml>"

def message : SourceError → String
  | .empty origin => s!"{origin} is empty"
  | .unsupportedFile source => s!"Spec file must be a .json, .yaml or .yml file: {source}"
  | .missingFile source => s!"Spec file not found: {source}"
  | .refused url status => s!"HTTP {status} fetching {url}"
  | .unreachable url reason => s!"Failed to fetch {url}: {reason}"
  | .badJson origin flaw text position =>
      s!"Invalid JSON in {origin}: {flaw.message text position}"
  | .badYaml origin => s!"Invalid YAML in {origin}: {yamlMark}"
  | .neitherFormat origin flaw text position =>
      s!"Could not parse {origin} as JSON or YAML\n  JSON error: {flaw.message text position}" ++
        s!"\n  YAML error: {yamlMark}"
  | .notMapping origin found =>
      s!"{origin} must contain a JSON/YAML object (got {foundInstead found})"
  | .tooOld version =>
      s!"Swagger {version.shown} documents are not supported; convert to OpenAPI 3.x first " ++
        "(e.g. with https://converter.swagger.io)"
  | .noVersion => "Missing 'openapi' field; not an OpenAPI 3.x document"
  | .unsupportedVersion version => s!"Unsupported OpenAPI version: {version} (expected 3.x)"

end SourceError

end ApiContract
