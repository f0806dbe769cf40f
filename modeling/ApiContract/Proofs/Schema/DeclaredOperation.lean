import ApiContract.Proofs.Schema.DeclaredParameter
import ApiContract.Proofs.Schema.DeclaredResponse
import ApiContract.Proofs.Schema.Lookup
import ApiContract.Proofs.Schema.RequestBranch
import ApiContract.Schema.Operation

/-!
# What an operation declares

An operation is built from three declarations: its parameters merged with those of its path item,
its body, and its responses.  When the schema of an operation is built, each of them has been read
entry by entry, and the schema consists of the branches that they give.
-/

namespace ApiContract.Schema

variable {collection : Collection} {document key method pathItem declaration : Value} {node : Node}

/-- The media types with a schema that an operation declares for its body. -/
def bodyMedia (declaration : Value) : Entries :=
  declaredMedia (memberIn declaration "requestBody")

/-- The parameters that apply to an operation of a path item. -/
def operationParameters (pathItem declaration : Value) : List Value :=
  effectiveDeclarations (declarations (memberIn declaration "parameters"))
    (declarations (memberIn pathItem "parameters"))

/-- The responses that an operation declares under a status. -/
def operationResponses (declaration : Value) : Entries :=
  declaredResponses (entriesIn (memberIn declaration "responses"))

theorem declaredMedia_of_falsy {requestBody : Value} (hfalsy : requestBody.truthy = false) :
    declaredMedia requestBody = [] := by
  cases requestBody with
  | map entries =>
      have hempty : entries = [] := by simpa [Value.truthy] using hfalsy
      rw [hempty]
      rfl
  | _ => rfl

/-- A body holds the media types that are declared for it, and one without any is no body. -/
theorem readsVariants_of_resolveBody {requestBody : Value} {body : Option Body}
    (hread : resolveBody requestBody = .ok body) :
    List.Forall₂ ReadsVariant (declaredMedia requestBody) (bodyVariants body) := by
  unfold resolveBody at hread
  cases htruthy : requestBody.truthy with
  | false =>
      simp only [htruthy] at hread
      cases hread
      rw [declaredMedia_of_falsy htruthy]
      exact .nil
  | true =>
      simp only [htruthy] at hread
      obtain ⟨content, hcontent, hread⟩ := bind_eq_ok_iff.mp hread
      have hentries := memberIn_of_fieldOf hcontent
      have hmedia : declaredMedia requestBody = usableMedia (entriesIn content) := by
        rw [← hentries]
        rfl
      rw [hmedia]
      cases content with
      | map entries =>
          obtain ⟨found, hfound, hread⟩ := bind_eq_ok_iff.mp hread
          have hall := readsVariants_of_variants hfound
          cases found with
          | nil =>
              cases hread
              exact hall
          | cons first others =>
              obtain ⟨flag, -, hread⟩ := bind_eq_ok_iff.mp hread
              cases hread
              exact hall
      | _ =>
          cases hread
          exact .nil

/-- An operation as it is declared: its merged parameters, its body and its responses. -/
structure ReadsOperation (pathItem declaration : Value) (parameters : List Parameter)
    (body : Option Body) (responses : List Response) : Prop where
  parameters : ∃ ops paths,
    List.Forall₂ ReadsParameter (declarations (memberIn declaration "parameters")) ops ∧
      List.Forall₂ ReadsParameter (declarations (memberIn pathItem "parameters")) paths ∧
        parameters = mergeResolved ops paths
  body : List.Forall₂ ReadsVariant (bodyMedia declaration) (bodyVariants body)
  responses : List.Forall₂ ReadsResponse (operationResponses declaration) responses

namespace ReadsOperation

variable {parameters : List Parameter} {body : Option Body} {responses : List Response}

theorem readsParameters (hreads : ReadsOperation pathItem declaration parameters body responses) :
    List.Forall₂ ReadsParameter (operationParameters pathItem declaration) parameters := by
  obtain ⟨ops, paths, hops, hpaths, rfl⟩ := hreads.parameters
  exact readsParameters_mergeResolved hops hpaths

theorem nodup_key (hreads : ReadsOperation pathItem declaration parameters body responses)
    (hpath : DistinctParameters (declarations (memberIn pathItem "parameters")))
    (hoperation : DistinctParameters (declarations (memberIn declaration "parameters"))) :
    (parameters.map (·.key)).Nodup := by
  obtain ⟨ops, paths, hops, hpaths, rfl⟩ := hreads.parameters
  exact nodup_key_mergeResolved (nodup_key_of_distinct hops hoperation)
    (nodup_key_of_distinct hpaths hpath)

end ReadsOperation

/-! ## Building -/

theorem exists_reads_of_operationShape {shape : OperationShape}
    (hbuilt : (operationShape pathItem declaration).outcome = .ok shape) :
    ∃ parameters body responses, ReadsOperation pathItem declaration parameters body responses ∧
      shape = ⟨choice (requestBranches parameters body),
        choice (responses.flatMap (responseBranches · true))⟩ := by
  unfold operationShape mergeParameters requestSchema responsesSchema at hbuilt
  simp only [Traced.outcome_bind, Traced.outcome_lift, Traced.outcome_pure] at hbuilt
  obtain ⟨pathLevel, hpathLevel, hbuilt⟩ := bind_eq_ok_iff.mp hbuilt
  obtain ⟨operationLevel, hoperationLevel, hbuilt⟩ := bind_eq_ok_iff.mp hbuilt
  obtain ⟨parameters, hparameters, hbuilt⟩ := bind_eq_ok_iff.mp hbuilt
  obtain ⟨ops, hops, hparameters⟩ := bind_eq_ok_iff.mp hparameters
  obtain ⟨paths, hpaths, hparameters⟩ := bind_eq_ok_iff.mp hparameters
  cases hparameters
  obtain ⟨body, hbody, hbuilt⟩ := bind_eq_ok_iff.mp hbuilt
  obtain ⟨requestBody, hrequestBody, hbody⟩ := bind_eq_ok_iff.mp hbody
  obtain ⟨_, ⟨⟩, hbuilt⟩ := bind_eq_ok_iff.mp hbuilt
  obtain ⟨responses, hresponses, hbuilt⟩ := bind_eq_ok_iff.mp hbuilt
  obtain ⟨declared, hdeclared, hresponses⟩ := bind_eq_ok_iff.mp hresponses
  obtain ⟨_, ⟨⟩, hbuilt⟩ := bind_eq_ok_iff.mp hbuilt
  cases hbuilt
  obtain rfl := memberIn_of_fieldOf hpathLevel
  obtain rfl := memberIn_of_fieldOf hoperationLevel
  obtain rfl := memberIn_of_fieldOf hrequestBody
  obtain rfl := memberIn_of_fieldOf hdeclared
  refine ⟨_, body, responses, ?_, rfl⟩
  constructor
  · exact ⟨ops, paths, readsParameters_of_resolveParameters hops,
      readsParameters_of_resolveParameters hpaths, rfl⟩
  · exact readsVariants_of_resolveBody hbody
  · exact readsResponses_of_resolveResponses hresponses

/-- The schema of an operation is built exactly if the operation is found, its method is a text,
and its shape is built. -/
theorem operationSchema_eq_ok_iff :
    (operationSchema collection document key method).outcome = .ok node ↔
      document.isNull = false ∧ ∃ pathItem declaration shape,
        operation collection document key method = .ok (pathItem, declaration) ∧
          (∃ name, method = .str name) ∧
            (operationShape pathItem declaration).outcome = .ok shape ∧ node = shape.node := by
  unfold operationSchema buildOperation
  cases hnull : document.isNull with
  | true => simp [bind_eq_ok_iff]
  | false =>
      simp only [Bool.false_eq_true, if_false, Traced.outcome_bind, Traced.outcome_lift,
        Traced.outcome_pure, bind_eq_ok_iff, true_and]
      constructor
      · rintro ⟨shape, ⟨⟨pathItem, declaration⟩, hfound, hshape⟩, ⟨⟩⟩
        cases method with
        | str name =>
            simp only [Traced.outcome_bind, Traced.outcome_note, Traced.outcome_mapError,
              bind_eq_ok_iff, mapError_eq_ok_iff] at hshape
            obtain ⟨_, ⟨⟩, hshape⟩ := hshape
            exact ⟨pathItem, declaration, shape, hfound, ⟨name, rfl⟩, hshape, rfl⟩
        | _ => simp at hshape
      · rintro ⟨pathItem, declaration, shape, hfound, ⟨name, rfl⟩, hshape, rfl⟩
        refine ⟨shape, ⟨_, hfound, ?_⟩, rfl⟩
        simp only [Traced.outcome_bind, Traced.outcome_note, Traced.outcome_mapError,
          bind_eq_ok_iff, mapError_eq_ok_iff]
        exact ⟨(), trivial, hshape⟩

/-- A schema that was built for an operation consists of the branches for what is declared. -/
theorem exists_reads_of_operationSchema
    (hbuilt : (operationSchema collection document key method).outcome = .ok node) :
    ∃ pathItem declaration, operation collection document key method = .ok (pathItem, declaration) ∧
      ∃ parameters body responses, ReadsOperation pathItem declaration parameters body responses ∧
        node = OperationShape.node ⟨choice (requestBranches parameters body),
          choice (responses.flatMap (responseBranches · true))⟩ := by
  obtain ⟨-, pathItem, declaration, shape, hfound, -, hshape, rfl⟩ :=
    operationSchema_eq_ok_iff.mp hbuilt
  obtain ⟨parameters, body, responses, hreads, rfl⟩ := exists_reads_of_operationShape hshape
  exact ⟨pathItem, declaration, hfound, parameters, body, responses, hreads, rfl⟩

/-! ## An operation of a small description -/

/-- A path item with an identifier in the path and a header that all operations share. -/
def petItem (declaration : Value) : Value :=
  .map [
    (.str "parameters", .list [
      .map [(.str "name", .str "id"), (.str "in", .str "path"),
        (.str "schema", .map [(.str "type", .str "string")])],
      .map [(.str "name", .str "X-Trace"), (.str "in", .str "header"),
        (.str "required", .bool true), (.str "schema", .map [(.str "type", .str "string")])]]),
    (.str "put", declaration)]

/-- An operation that shadows the header, has another parameter called as the identifier, and
declares media types without a schema. -/
def petUpdate : Value :=
  .map [
    (.str "parameters", .list [
      .map [(.str "name", .str "X-Trace"), (.str "in", .str "header"),
        (.str "schema", .map [(.str "type", .str "integer")])],
      .map [(.str "name", .str "id"), (.str "in", .str "query"), (.str "schema", .bool true)]]),
    (.str "requestBody", .map [(.str "content", .map [
      (.str "application/json", .map [(.str "schema", .map [(.str "type", .str "object")])]),
      (.str "image/png", .map []),
      (.str "text/plain", .map [(.str "schema", .map [(.str "type", .str "string")])])])]),
    (.str "responses", .map [
      (.int 200, .map [(.str "content", .map [
        (.str "application/json", .map [(.str "schema", .map [])])])]),
      (.str "x-internal", .map []),
      (.str "404", .map [])])]

def petDocument : Value :=
  .map [(.str "paths", .map [(.str "/pets/id", petItem petUpdate)])]

theorem petUpdate_found :
    operation .paths petDocument (.str "/pets/id") (.str "put") =
      .ok (petItem petUpdate, petUpdate) := by
  have hpaths : collectionOf .paths petDocument =
      .ok (.map [(.str "/pets/id", petItem petUpdate)]) := by
    simp [collectionOf, petDocument, Value.isNull, Collection.field, Entries.fieldD,
      Entries.field?, Entries.get?]
  have hitem : memberOf (.map [(.str "/pets/id", petItem petUpdate)]) (.str "/pets/id") =
      .ok (petItem petUpdate) := by
    simp [Entries.fieldD, Entries.field?, Entries.get?]
  have hmethod : memberOf (petItem petUpdate) (.str "put") = .ok petUpdate := by
    simp [petItem, Entries.fieldD, Entries.field?, Entries.get?]
  rw [operation_eq_ok_iff, item_eq_ok_iff]
  exact ⟨rfl, ⟨rfl, rfl, _, hpaths, rfl, hitem, rfl⟩, hmethod, rfl⟩

theorem petUpdate_built :
    ∃ node, (operationSchema .paths petDocument (.str "/pets/id") (.str "put")).outcome =
      .ok node := by
  have hbuilds : (operationShape (petItem petUpdate) petUpdate).outcome.isOk = true := by
    decide +kernel
  cases hshape : (operationShape (petItem petUpdate) petUpdate).outcome with
  | ok shape =>
      exact ⟨shape.node, operationSchema_eq_ok_iff.mpr
        ⟨rfl, petItem petUpdate, petUpdate, shape, petUpdate_found, ⟨"put", rfl⟩, hshape, rfl⟩⟩
  | error e => simp [hshape, Except.isOk, Except.toBool] at hbuilds

end ApiContract.Schema
