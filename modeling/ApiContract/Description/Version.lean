import ApiContract.Schema.Declared

/-!
# Versions of the description format

Descriptions of version 3 are supported.  Older ones name their version in a field of its own.
-/

namespace ApiContract.Description

/-- Whether a version is one of the third. -/
def isSupported (version : String) : Bool := "3.".toList.isPrefixOf version.toList

/-- The text of a declared version. -/
def versionText (declared : Value) : Except Fault String :=
  if declared.isQuotable then .ok declared.shown else .error .misfit

/-- The version of a description, if it is supported. -/
def version (description : Value) : Except Fault String := do
  if ← Schema.declares description "swagger" then
    let old ← Schema.declared description "swagger"
    let _ ← versionText old
    throw (.source (.tooOld old))
  let declared ← Schema.fieldOf description "openapi"
  if declared.isNull then throw (.source .noVersion)
  let text ← versionText declared
  if isSupported text then return text
  else throw (.source (.unsupportedVersion text))

end ApiContract.Description
