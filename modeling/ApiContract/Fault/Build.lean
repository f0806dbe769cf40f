import ApiContract.Collection
import ApiContract.Text.Uppercase
import ApiContract.Value.Display

/-!
# Failures of the schema builders

A failure has a cause and, as far as they are known, the key of the path item, the method and the
field where it arose.  Keys, methods and fields come from the description and need not be texts;
null means that one is not known.
-/

namespace ApiContract

/-- Why a schema cannot be built. -/
inductive BuildCause where
  | notProvided (argument : String)
  | noCollection (collection : Collection)
  | noItem (collection : Collection)
  | noOperation (collection : Collection)
  | namelessParameter
  | unknownLocation (parameter : String) (location : Value)
  | parametersNotList (kindName : String)
  | unknownGroup (group : Value)
  | emptyContent
  | undefinedMediaType (mediaType : Value)
  | mediaTypeWithoutSchema (mediaType : Value)
  | neitherSchemaNorContent
  | stated (family : Family) (text : String)
  deriving Repr

namespace BuildCause

def family : BuildCause → Family
  | .notProvided _ => .missingArgument
  | .noCollection collection => collection.absence
  | .noItem collection => collection.absence
  | .noOperation _ => .structuralAbsence
  | .namelessParameter | .unknownLocation _ _ | .parametersNotList _ | .unknownGroup _ =>
      .invalidShape
  | .emptyContent | .undefinedMediaType _ | .mediaTypeWithoutSchema _ => .contentDerivation
  | .neitherSchemaNorContent => .missingSchema
  | .stated family _ => family

def message : BuildCause → String
  | .notProvided argument => s!"{argument} is not provided"
  | .noCollection collection => s!"document contains no {collection.field}"
  | .noItem collection => s!"document doesn't contain this {collection.label}"
  | .noOperation collection => s!"{collection.label} doesn't contain this operation"
  | .namelessParameter => "parameter has no name"
  | .unknownLocation parameter location =>
      s!"parameter '{parameter}' has unknown location {location.quoted}"
  | .parametersNotList kindName => s!"parameters are not an array (got {kindName})"
  | .unknownGroup group => s!"group name is not valid: {group.quoted}"
  | .emptyContent => "content map is empty"
  | .undefinedMediaType mediaType => s!"media type '{mediaType.shown}' is undefined"
  | .mediaTypeWithoutSchema mediaType =>
      s!"there is no schema in media type '{mediaType.shown}'"
  | .neitherSchemaNorContent => "schema and content are undefined"
  | .stated _ text => text

/-- Whether a cause can be told: what its message quotes of the description can stand there. -/
def isTellable : BuildCause → Bool
  | .unknownLocation _ location => location.isQuotable
  | .unknownGroup group => group.isQuotable
  | .undefinedMediaType mediaType | .mediaTypeWithoutSchema mediaType => mediaType.isQuotable
  | _ => true

end BuildCause

/-- A failure of a schema builder. -/
structure BuildError where
  cause : BuildCause
  path : Value := .null
  method : Value := .null
  field : Value := .null
  deriving Repr

namespace BuildError

/-- Whether a failure can be told: its cause can, and what is present of the path and the method
is a text. -/
def isTellable (e : BuildError) : Bool :=
  e.cause.isTellable && (!e.method.truthy || e.method.asText?.isSome) &&
    (!e.path.truthy || e.path.asText?.isSome)

/-- The parts of the place that are present: the method in upper case, then the path. -/
def placeParts (e : BuildError) : List String :=
  (if e.method.truthy then e.method.asText?.toList.map Text.upper else []) ++
    (if e.path.truthy then e.path.asText?.toList else [])

/-- The cause with the place where it arose. -/
def message (e : BuildError) : String :=
  if e.placeParts.isEmpty then e.cause.message
  else e.cause.message ++ " (at " ++ String.intercalate " " e.placeParts ++ ")"

/-- Fills in the path and the method where they are not known. -/
def locate (e : BuildError) (path method : Value) : BuildError :=
  { e with
    path := if e.path.isNull then path else e.path
    method := if e.method.isNull then method else e.method }

theorem locate_cause (e : BuildError) (path method : Value) :
    (e.locate path method).cause = e.cause := rfl

end BuildError

end ApiContract
