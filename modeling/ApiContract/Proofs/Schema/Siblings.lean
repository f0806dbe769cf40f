import ApiContract.Proofs.Schema.ComponentShape
import ApiContract.Proofs.Schema.GivenObject
import ApiContract.Proofs.Schema.RequestBranch
import ApiContract.Schema.Response

/-!
# Branches side by side

The branches of a message carry one variant of its body each.  Without the schema of the body and
the content type pinned among the headers they are all the same: the message that they stand on,
with a few names added to those that are required if the body is.
-/

namespace ApiContract.Schema

variable {message headers base left right : ObjectNode Node} {body : Body}

/-! ## What tells branches apart -/

namespace ObjectNode

variable {ν : Type}

theorem dropProperty_set (o : ObjectNode ν) (name : String) (schema : ν) :
    (o.set (.str name) schema).dropProperty name = o.dropProperty name := by
  rw [dropProperty, set, Entries.erase_insert_self, dropProperty]

/-- The names that are not required yet. -/
def missing (o : ObjectNode ν) (names : List String) : List Value :=
  (names.map Value.str).filter fun name => !o.required.any (·.same name)

/-- The object schema with the names that are missing required at the end. -/
def requireMissing (o : ObjectNode ν) (names : List String) : ObjectNode ν :=
  { o with required := o.required ++ o.missing names }

theorem missing_cons (o : ObjectNode ν) (name : String) (names : List String) :
    o.missing (name :: names) =
      if o.required.any (·.same (.str name)) then o.missing names
      else .str name :: o.missing names := by
  rw [missing, List.map_cons, List.filter_cons]
  cases o.required.any (·.same (.str name)) <;> rfl

/-- Distinct names that are required one after another are added where they are missing. -/
theorem requireAll_eq_requireMissing (o : ObjectNode ν) {names : List String}
    (hnodup : names.Nodup) : o.requireAll (names.map Value.str) = o.requireMissing names := by
  induction names generalizing o with
  | nil => simp [requireAll, requireMissing, missing]
  | cons name rest ih =>
      obtain ⟨hname, hrest⟩ := List.nodup_cons.mp hnodup
      have hstep : o.requireAll ((name :: rest).map Value.str) =
          (o.require (.str name)).requireAll (rest.map Value.str) := rfl
      rw [hstep, ih _ hrest, requireMissing, requireMissing, missing_cons, require]
      split
      · rfl
      · -- The name just added is not among those that follow.
        have hkept : missing { o with required := o.required ++ [.str name] } rest =
            o.missing rest := by
          rw [missing, missing, List.filter_map, List.filter_map]
          refine congrArg (List.map Value.str) (List.filter_congr fun other hother => ?_)
          have hne : name ≠ other := fun heq => hname (heq ▸ hother)
          simp [hne]
        rw [hkept, List.append_assoc]
        rfl

end ObjectNode

/-- Changes a node that is an object. -/
def changeObject (change : ObjectNode Node → ObjectNode Node) : Node → Node
  | .object o => .object (change o)
  | node => node

/-- Changes the bucket of headers of a message and nothing else. -/
def changeHeaders (change : ObjectNode Node → ObjectNode Node) (message : ObjectNode Node) :
    ObjectNode Node :=
  { message with properties := Entries.update message.properties "headers" (changeObject change) }

/-- A message without the schema of its body and without the content type among its headers. -/
def dropContent (message : ObjectNode Node) : ObjectNode Node :=
  (changeHeaders (·.dropProperty "Content-Type") message).dropProperty "body"

/-- A message that requires the content type among its headers, the headers and the body: each is
added behind what is required already, unless it is there. -/
def requiringContent (message : ObjectNode Node) : ObjectNode Node :=
  (changeHeaders (·.requireMissing ["Content-Type"]) message).requireMissing ["headers", "body"]

/-! ## One branch -/

/-- The message that all branches stand on: it has a bucket of headers, and requires what a body
requires. -/
def trunk (message : ObjectNode Node) (required : Bool) : ObjectNode Node :=
  let headers := headersOf message
  if required then
    (message.set (.str "headers") (.object (headers.requireMissing ["Content-Type"]))).requireMissing
      ["headers", "body"]
  else message.set (.str "headers") (.object headers)

theorem dropContent_requireMissing (message : ObjectNode Node) (names : List String) :
    dropContent (message.requireMissing names) =
      (dropContent message).requireMissing names := rfl

theorem dropContent_set_headers (message : ObjectNode Node) (headers : ObjectNode Node) :
    dropContent (message.set (.str "headers") (.object headers)) =
      ((changeHeaders (·.dropProperty "Content-Type") message).set (.str "headers")
        (.object (headers.dropProperty "Content-Type"))).dropProperty "body" := by
  rw [dropContent, changeHeaders, ObjectNode.set, Entries.update_insert_self]
  rfl

theorem dropContent_set_body (message : ObjectNode Node) (schema : Node) :
    dropContent (message.set (.str "body") schema) = dropContent message := by
  have hupdate := Entries.update_insert_of_ne (show "body" ≠ "headers" by decide)
    message.properties schema (changeObject (·.dropProperty "Content-Type"))
  rw [dropContent, changeHeaders, ObjectNode.set, hupdate, ObjectNode.dropProperty,
    Entries.erase_insert_self]
  rfl

/-- Without the content type the pinned headers are those that were there. -/
theorem dropProperty_pinnedHeaders (headers : ObjectNode Node) (required : Bool)
    (contentType : String) :
    (pinnedHeaders headers required contentType).dropProperty "Content-Type" =
      (if required then headers.requireMissing ["Content-Type"] else headers).dropProperty
        "Content-Type" := by
  have hset : (headers.set contentTypeName (.pinned (.str contentType))).dropProperty
      "Content-Type" = headers.dropProperty "Content-Type" := headers.dropProperty_set _ _
  cases required with
  | false => exact hset
  | true =>
      have hrequire : headers.requireMissing ["Content-Type"] = headers.require contentTypeName :=
        (headers.requireAll_eq_requireMissing (List.nodup_singleton _)).symm
      rw [if_pos rfl, hrequire, ObjectNode.dropProperty_require, ← hset,
        ← ObjectNode.dropProperty_require]
      rfl

/-- What is left of a branch is what is left of its trunk. -/
theorem dropContent_withContent (message : ObjectNode Node) (required : Bool)
    (variant : ContentVariant) :
    dropContent (withContent message required variant) =
      dropContent (trunk message required) := by
  have hcarrying : dropContent (carrying message required variant) =
      dropContent (message.set (.str "headers") (.object
        (if required then (headersOf message).requireMissing ["Content-Type"]
          else headersOf message))) := by
    rw [carrying, dropContent_set_body, dropContent_set_headers, dropContent_set_headers,
      dropProperty_pinnedHeaders]
  rw [withContent_eq, trunk]
  cases required with
  | false => exact hcarrying
  | true =>
      have hnames : ["headers", "body"].Nodup := by decide
      have hrequire := (carrying message true variant).requireAll_eq_requireMissing hnames
      rw [if_pos rfl] at hcarrying
      rw [if_pos rfl, if_pos rfl, dropContent_requireMissing, ← hcarrying,
        ← dropContent_requireMissing]
      exact congrArg dropContent hrequire

/-- The trunk of a message that has a bucket of headers is the message itself, with the names that a
required body adds. -/
theorem trunk_eq (htable : Entries.IsTable message.properties)
    (hheaders : message.property? "headers" = some (.object headers)) (required : Bool) :
    trunk message required = if required then requiringContent message else message := by
  have hset (change : Node → Node) : message.set (.str "headers") (change (.object headers)) =
      { message with properties := Entries.update message.properties "headers" change } :=
    congrArg (fun properties => { message with properties })
      (htable.insert_eq_update hheaders change)
  have hbucket : headersOf message = headers := by
    rw [headersOf, hheaders]
    rfl
  rw [trunk, hbucket]
  cases required with
  | false => exact (hset id).trans (by rw [Entries.update_id]; rfl)
  | true =>
      exact congrArg (·.requireMissing ["headers", "body"])
        (hset (changeObject (·.requireMissing ["Content-Type"])))

/-! ## All branches -/

theorem dropContent_of_mem_bodyBranches (hleft : left ∈ bodyBranches base body) :
    dropContent left = dropContent (trunk base body.required) := by
  obtain ⟨variant, -, rfl⟩ := List.mem_map.mp hleft
  exact dropContent_withContent base body.required variant

/-- The branches of a response carry its variants, or there is one branch only. -/
theorem responseBranches_eq_or (r : Response) (includeStatus : Bool) :
    (∃ variants : List ContentVariant, responseBranches r includeStatus =
      variants.map (withContent (responseBase r includeStatus) true)) ∨
      responseBranches r includeStatus = [responseBase r includeStatus] := by
  unfold responseBranches
  split
  · exact .inl ⟨_, rfl⟩
  · exact .inr rfl

theorem dropContent_eq_of_mem_responseBranches {r : Response} {includeStatus : Bool}
    (hleft : left ∈ responseBranches r includeStatus)
    (hright : right ∈ responseBranches r includeStatus) :
    dropContent left = dropContent right := by
  rcases responseBranches_eq_or r includeStatus with ⟨variants, hbranches⟩ | hbranches
  · rw [hbranches, List.mem_map] at hleft hright
    obtain ⟨variant, -, rfl⟩ := hleft
    obtain ⟨other, -, rfl⟩ := hright
    rw [dropContent_withContent, dropContent_withContent]
  · rw [hbranches, List.mem_singleton] at hleft hright
    rw [hleft, hright]

/-- The branches of a body, and those of a response, are the same except for the schema of the body
and the content type among the headers.  On a base with a bucket of headers they leave all else as it
is in the base: a required body adds the content type to the headers that are required, and the
headers and the body to what the message requires, each at the end and where it is missing.  A base
that is given as a value has the same branches. -/
theorem branches_differ_in_content :
    (∀ base body, ∀ left ∈ bodyBranches base body, ∀ right ∈ bodyBranches base body,
      dropContent left = dropContent right) ∧
    (∀ r includeStatus, ∀ left ∈ responseBranches r includeStatus,
      ∀ right ∈ responseBranches r includeStatus, dropContent left = dropContent right) ∧
    ∀ base headers body, Entries.IsTable base.properties →
      base.property? "headers" = some (.object headers) →
      (∀ branch ∈ bodyBranches base body, dropContent branch =
        dropContent (if body.required then requiringContent base else base)) ∧
      editBranches (Node.object base).toValue body =
        .ok ((bodyBranches base body).map fun branch => (Node.object branch).toValue) := by
  refine ⟨?_, ?_, ?_⟩
  · intro base body left hleft right hright
    rw [dropContent_of_mem_bodyBranches hleft, dropContent_of_mem_bodyBranches hright]
  · exact fun r includeStatus left hleft right hright =>
      dropContent_eq_of_mem_responseBranches hleft hright
  · intro base headers body htable hheaders
    refine ⟨fun branch hbranch => ?_, editBranches_toValue hheaders body⟩
    rw [dropContent_of_mem_bodyBranches hbranch, trunk_eq htable hheaders]

theorem isTable_requestBase (parameters : List Parameter) :
    Entries.IsTable (requestBase parameters).properties :=
  Entries.isTable_of_names (keys_requestBase parameters) (by decide)

/-- A content type that is declared as a header and required, and a header that is not. -/
def typedParameters : List Parameter :=
  [⟨"Content-Type", .header, .map [(.str "type", .str "string")], true⟩,
    ⟨"X-Trace", .header, .map [(.str "type", .str "string")], false⟩]

/-- A report that must be sent, as one of two media types. -/
def reportBody : Body :=
  ⟨[⟨"application/json", .map [(.str "type", .str "object")]⟩,
    ⟨"text/csv", .map [(.str "type", .str "string")]⟩], true⟩

/-- A header for the content type is no obstacle: it is replaced in place, and stays required. -/
theorem report_differs_in_content :
    Entries.IsTable (requestBase typedParameters).properties ∧
      (requestBase typedParameters).property? "headers" =
        some (.object (bucket typedParameters .header)) ∧
      (∀ branch ∈ bodyBranches (requestBase typedParameters) reportBody, dropContent branch =
        dropContent (requiringContent (requestBase typedParameters))) ∧
      editBranches (Node.object (requestBase typedParameters)).toValue reportBody =
        .ok ((bodyBranches (requestBase typedParameters) reportBody).map fun branch =>
          (Node.object branch).toValue) := by
  have htable := isTable_requestBase typedParameters
  have hheaders := property?_requestBase typedParameters .header
  obtain ⟨hbranches, hgiven⟩ := branches_differ_in_content.2.2 _ _ reportBody htable hheaders
  exact ⟨htable, hheaders, hbranches, hgiven⟩

end ApiContract.Schema
