import ApiContract.Proofs.Schema.DeclaredOperation
import ApiContract.Proofs.Schema.ResponseBranch

/-!
# Which branches an operation has

Media types are expanded into branches: one for each that has a schema, in declaration order, or a
single one without a body when there is none.  The body of an operation is expanded once, and each
of its responses is expanded on its own under its status.  No branch is lost, doubled or moved on
the way from the declaration to the schema.
-/

namespace ApiContract.Schema

variable {collection : Collection} {document key method : Value} {node : Node}

/-- A branch that pins the content type of a media type and has its schema as the body. -/
structure CarriesMedia (entry : Value × Value) (branch : ObjectNode Node) : Prop where
  contentType : ∃ headers name, branch.property? "headers" = some (.object headers) ∧
    nameOf entry.1 = .ok name ∧ headers.property? "Content-Type" = some (.pinned (.str name))
  body : branch.property? "body" = some (.given entry.2)

/-- One branch for every media type, in order, or a single one without a body. -/
inductive Expands : Entries → List (ObjectNode Node) → Prop where
  | bare (branch : ObjectNode Node) (hbody : branch.property? "body" = none) : Expands [] [branch]
  | content {media : Entries} {branches : List (ObjectNode Node)} (hmedia : media ≠ [])
      (hcarries : List.Forall₂ CarriesMedia media branches) : Expands media branches

/-- The branches of one response expand its media types and pin its status. -/
structure ExpandsResponse (entry : Value × Value) (branches : List (ObjectNode Node)) : Prop where
  expands : Expands (declaredMedia entry.2) branches
  status : ∀ branch ∈ branches, branch.property? "status" = some (.pinned (.str entry.1.shown))

/-- The schema of an operation: a choice between the branches for its body, and a choice between
those of all its responses, one response after another. -/
def ExpandsOperation (declaration : Value) (node : Node) : Prop :=
  ∃ request groups, node = OperationShape.node ⟨choice request, choice groups.flatten⟩ ∧
    Expands (bodyMedia declaration) request ∧
      List.Forall₂ ExpandsResponse (operationResponses declaration) groups

/-! ## Expanding -/

theorem carriesMedia_withContent {entry : Value × Value} {variant : ContentVariant}
    (hreads : ReadsVariant entry variant) (message : ObjectNode Node) (required : Bool) :
    CarriesMedia entry (withContent message required variant) where
  contentType := ⟨_, _, property?_withContent_headers, hreads.contentType, property?_pinnedHeaders⟩
  body := by rw [property?_withContent_body, hreads.schema]

theorem forall₂_carriesMedia {media : Entries} {variants : List ContentVariant}
    (hall : List.Forall₂ ReadsVariant media variants) (message : ObjectNode Node)
    (required : Bool) :
    List.Forall₂ CarriesMedia media (variants.map (withContent message required)) := by
  rw [List.forall₂_map_right_iff]
  exact hall.imp fun _ _ hreads => carriesMedia_withContent hreads message required

/-- Variants that were read from media types expand them on top of a message without a body. -/
theorem expands_of_readsVariants {media : Entries} {variants : List ContentVariant}
    {message : ObjectNode Node} {required : Bool} {branches : List (ObjectNode Node)}
    (hall : List.Forall₂ ReadsVariant media variants) (hbody : message.property? "body" = none)
    (hbare : variants = [] → branches = [message])
    (hcontent : variants ≠ [] → branches = variants.map (withContent message required)) :
    Expands media branches := by
  cases hall with
  | nil =>
      rw [hbare rfl]
      exact .bare message hbody
  | cons hfirst hrest =>
      rw [hcontent (List.cons_ne_nil _ _)]
      exact .content (List.cons_ne_nil _ _) (forall₂_carriesMedia (.cons hfirst hrest) _ _)

theorem expands_requestBranches {parameters : List Parameter} {body : Option Body}
    {media : Entries} (hall : List.Forall₂ ReadsVariant media (bodyVariants body)) :
    Expands media (requestBranches parameters body) := by
  have hbody : (requestBase parameters).property? "body" = none :=
    Entries.field?_eq_none_iff.mpr (body_not_mem_keys_requestBase parameters)
  cases body with
  | none =>
      cases hall with
      | nil => exact .bare _ hbody
  | some body =>
      exact expands_of_readsVariants hall hbody requestBranches_of_bare requestBranches_of_content

theorem property?_responseBase {r : Response} {status : String} (hstatus : r.status = some status) :
    (responseBase r true).property? "status" = some (.pinned (.str status)) ∧
      (responseBase r true).property? "body" = none := by
  rw [responseBase_eq_record hstatus]
  cases r.headers with
  | nil => simp [ObjectNode.property?, Entries.field?, Entries.get?, record]
  | cons h rest => simp [ObjectNode.property?, Entries.field?, Entries.get?, record]

theorem expandsResponse_responseBranches {entry : Value × Value} {r : Response}
    (hreads : ReadsResponse entry r) : ExpandsResponse entry (responseBranches r true) := by
  obtain ⟨hstatus, hbody⟩ := property?_responseBase hreads.status
  constructor
  · exact expands_of_readsVariants hreads.variants hbody responseBranches_of_bare
      responseBranches_of_variants
  · intro branch hbranch
    by_cases hbare : r.variants = []
    · rw [responseBranches_of_bare hbare, List.mem_singleton] at hbranch
      rw [hbranch, hstatus]
    · rw [responseBranches_of_variants hbare] at hbranch
      obtain ⟨variant, -, rfl⟩ := List.mem_map.mp hbranch
      rw [property?_withContent_of_ne (by decide) (by decide), hstatus]

/-! ## The schema of an operation -/

/-- A schema that was built for an operation has the branches that the operation declares. -/
theorem operationSchema_expands
    (hbuilt : (operationSchema collection document key method).outcome = .ok node) :
    ∃ pathItem declaration, operation collection document key method = .ok (pathItem, declaration) ∧
      ExpandsOperation declaration node := by
  obtain ⟨pathItem, declaration, hfound, parameters, body, responses, hreads, rfl⟩ :=
    exists_reads_of_operationSchema hbuilt
  refine ⟨pathItem, declaration, hfound, requestBranches parameters body,
    responses.map (responseBranches · true), ?_, ?_, ?_⟩
  · rw [← List.flatMap_def]
  · exact expands_requestBranches hreads.body
  · rw [List.forall₂_map_right_iff]
    exact hreads.responses.imp fun _ _ hresponse => expandsResponse_responseBranches hresponse

theorem petUpdate_expands :
    ∃ node,
      (operationSchema .paths petDocument (.str "/pets/id") (.str "put")).outcome = .ok node ∧
        ExpandsOperation petUpdate node := by
  obtain ⟨node, hbuilt⟩ := petUpdate_built
  obtain ⟨_, _, hfound, hexpands⟩ := operationSchema_expands hbuilt
  obtain ⟨-, rfl⟩ := Prod.mk.inj (Except.ok.inj (petUpdate_found.symm.trans hfound))
  exact ⟨node, hbuilt, hexpands⟩

end ApiContract.Schema
