import ApiContract.Proofs.Schema.Frame
import ApiContract.Schema.Request

/-!
# Messages that carry content

`withContent` gives a message the body of one variant and pins the content type among its headers.
The statements say what the message has under each name afterwards: the variant's schema as its
body, its own headers with the content type pinned, and under every other name what it had.
-/

namespace ApiContract.Schema

namespace ObjectNode

variable {ν : Type} {o : ObjectNode ν} {schema : ν} {name other : String} {key : Value}

theorem property?_set_self : (o.set (.str name) schema).property? name = some schema :=
  Entries.field?_insert_self

theorem property?_set_of_ne (hother : other ≠ name) :
    (o.set (.str name) schema).property? other = o.property? other :=
  Entries.field?_insert_of_ne hother

@[simp] theorem property?_require : (o.require key).property? name = o.property? name := by
  rw [property?, properties_require, property?]

@[simp] theorem properties_requireAll (o : ObjectNode ν) (keys : List Value) :
    (o.requireAll keys).properties = o.properties := by
  induction keys generalizing o with
  | nil => rfl
  | cons key rest ih =>
      have htail : ((o.require key).requireAll rest).properties = (o.require key).properties :=
        ih (o.require key)
      rwa [properties_require] at htail

@[simp] theorem property?_requireAll (keys : List Value) :
    (o.requireAll keys).property? name = o.property? name := by
  rw [property?, properties_requireAll, property?]

end ObjectNode

/-- A bucket of headers with the content type pinned, and required if it must be sent. -/
def pinnedHeaders (headers : ObjectNode Node) (required : Bool) (contentType : String) :
    ObjectNode Node :=
  let pinned := headers.set contentTypeName (.pinned (.str contentType))
  if required then pinned.require contentTypeName else pinned

section Headers

variable {headers : ObjectNode Node} {required : Bool} {contentType : String}

theorem property?_pinnedHeaders :
    (pinnedHeaders headers required contentType).property? "Content-Type" =
      some (.pinned (.str contentType)) := by
  unfold pinnedHeaders contentTypeName
  cases required with
  | false => exact ObjectNode.property?_set_self
  | true => exact ObjectNode.property?_require.trans ObjectNode.property?_set_self

/-- Pinning the content type leaves all other headers. -/
theorem erase_pinnedHeaders :
    (pinnedHeaders headers required contentType).erase "Content-Type" =
      headers.erase "Content-Type" := by
  unfold pinnedHeaders contentTypeName
  cases required with
  | false => exact ObjectNode.erase_set headers _ _
  | true => exact (ObjectNode.erase_require _ _).trans (ObjectNode.erase_set headers _ _)

end Headers

variable {message : ObjectNode Node} {required : Bool} {variant : ContentVariant} {name : String}

/-- The message with the headers and the body in place, before anything is required. -/
def carrying (message : ObjectNode Node) (required : Bool) (variant : ContentVariant) :
    ObjectNode Node :=
  (message.set (.str "headers")
    (.object (pinnedHeaders (headersOf message) required variant.contentType))).set
    (.str "body") (.given variant.schema)

theorem withContent_eq (message : ObjectNode Node) (required : Bool) (variant : ContentVariant) :
    withContent message required variant =
      if required then
        (carrying message required variant).requireAll [.str "headers", .str "body"]
      else carrying message required variant :=
  rfl

theorem property?_withContent (message : ObjectNode Node) (required : Bool)
    (variant : ContentVariant) (name : String) :
    (withContent message required variant).property? name =
      (carrying message required variant).property? name := by
  rw [withContent_eq]
  split
  · exact ObjectNode.property?_requireAll _
  · rfl

theorem property?_withContent_body :
    (withContent message required variant).property? "body" = some (.given variant.schema) := by
  rw [property?_withContent]
  exact ObjectNode.property?_set_self

theorem property?_withContent_headers :
    (withContent message required variant).property? "headers" =
      some (.object (pinnedHeaders (headersOf message) required variant.contentType)) := by
  rw [property?_withContent, carrying, ObjectNode.property?_set_of_ne (by decide)]
  exact ObjectNode.property?_set_self

theorem property?_withContent_of_ne (hheaders : name ≠ "headers") (hbody : name ≠ "body") :
    (withContent message required variant).property? name = message.property? name := by
  rw [property?_withContent, carrying, ObjectNode.property?_set_of_ne hbody,
    ObjectNode.property?_set_of_ne hheaders]

end ApiContract.Schema
