import ApiContract.Schema.Declared

/-!
# Media types

A `content` map declares media types.  Parameters and headers use the schema of the first one
alone; bodies use every media type that has a schema.  A declaration of encodings marks properties
of an object schema with the media type that they are encoded in.
-/

namespace ApiContract.Schema

/-- One way to encode a body: a content type and the schema of what is encoded. -/
structure ContentVariant where
  contentType : String
  schema : Value
  deriving Repr

/-- Marks one property with the content type of its encoding. -/
def stampProperty (properties : Entries) (name encoding : Value) : Except Fault Entries := do
  let contentType ←
    if encoding.truthy then fieldOf encoding "contentType" else .ok .null
  match Entries.get? properties name with
  | some (.map property) =>
      if contentType.isNull then .ok properties
      else .ok (properties.insert name
        (.map (Entries.setField property "contentMediaType" contentType)))
  | _ => .ok properties

/-- Marks properties one after another. -/
def stampProperties (properties : Entries) : Entries → Except Fault Entries
  | [] => .ok properties
  | (name, encoding) :: rest => do stampProperties (← stampProperty properties name encoding) rest

/-- The mapping of properties of an object schema. -/
def objectProperties? (schema : Value) : Option (Entries × Entries) := do
  let es ← schema.asMap?
  if (Entries.fieldD es "type").same (.str "object") then
    let properties ← (Entries.fieldD es "properties").asMap?
    some (es, properties)
  else none

/-- A schema with the encodings of its properties marked. -/
def stamp (schema encodings : Value) : Except Fault Value :=
  match objectProperties? schema with
  | some (es, properties) =>
      if encodings.truthy then do
        let stamped ← stampProperties properties (← entriesOf encodings)
        .ok (.map (Entries.setField es "properties" (.map stamped)))
      else .ok schema
  | none => .ok schema

/-- The schema of the first media type of a content map.  `field` names the declaration. -/
def schemaFromContent (content field : Value) : Except Fault Value := do
  if content.isNull then throw (.ofBuild { cause := .notProvided "content", field })
  if !content.truthy then throw (.ofBuild { cause := .emptyContent, field })
  let contentType ← orMisfit ((← orMisfit content.elements?).head?)
  let mediaType ← orMisfit (content.part? contentType)
  if mediaType.isNull then throw (.ofBuild { cause := .undefinedMediaType contentType, field })
  if !(← declares mediaType "schema") then
    throw (.ofBuild { cause := .mediaTypeWithoutSchema contentType, field })
  let schema ← declared mediaType "schema"
  stamp schema (← fieldOf mediaType "encoding")

/-- The schema of a parameter or a header: an inline one, or that of its content. -/
def deriveSchema (declaration field : Value) : Except Fault Value := do
  if ← declares declaration "schema" then declared declaration "schema"
  else if ← declares declaration "content" then
    schemaFromContent (← declared declaration "content") field
  else throw (.ofBuild { cause := .neitherSchemaNorContent, field })

/-- The variant of one media type; one without a schema declares none. -/
def variant? (contentType mediaType : Value) : Except Fault (Option ContentVariant) :=
  match mediaType with
  | .map es => match Entries.field? es "schema" with
      | some schema => (nameOf contentType).map fun name => some ⟨name, schema⟩
      | none => .ok none
  | _ => .ok none

/-- The variants of a content map in declaration order. -/
def variants : Entries → Except Fault (List ContentVariant)
  | [] => .ok []
  | (contentType, mediaType) :: rest => do
      let first ← variant? contentType mediaType
      let others ← variants rest
      .ok (first.toList ++ others)

end ApiContract.Schema
