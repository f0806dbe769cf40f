import ApiContract.Proofs.Schema.ContentBranch
import ApiContract.Proofs.Schema.Naming

/-!
# Branches of a request

A request without a body is an object with one bucket for each location, and the branches for a
body carry one variant each on top of it.  The statements give the parts of both: which buckets
there are, what a bucket names and requires, and that a request without a body does not speak of
one.
-/

namespace ApiContract.Schema

variable {parameters : List Parameter} {location : ParameterLocation} {key : Value}

theorem bucketName_injective : Function.Injective bucketName := by
  intro left right heq
  cases left <;> cases right <;> simp_all [bucketName]

theorem mem_bucketOrder (location : ParameterLocation) : location ∈ bucketOrder := by
  cases location <;> decide

/-! ## Buckets -/

theorem nodup_keys_bucket (parameters : List Parameter) (location : ParameterLocation) :
    (Entries.keys (bucket parameters location).properties).Nodup := by
  unfold bucket
  apply names_addParameter.nodup_keys_foldl
  split <;> exact List.nodup_nil

theorem mem_keys_bucket_iff :
    key ∈ Entries.keys (bucket parameters location).properties ↔
      ∃ p ∈ parameters, p.location = location ∧ key = .str p.name := by
  unfold bucket
  rw [names_addParameter.mem_keys_foldl_iff]
  have hinitial : key ∉ Entries.keys
      (if location = .path then ObjectNode.closed else .unrestricted : ObjectNode Node).properties := by
    split <;> exact List.not_mem_nil
  simp only [hinitial, false_or, List.mem_filter, beq_iff_eq, and_assoc]

theorem mem_required_bucket_iff :
    key ∈ (bucket parameters location).required ↔
      ∃ p ∈ parameters, p.location = location ∧ p.required = true ∧ key = .str p.name := by
  unfold bucket
  rw [names_addParameter.mem_required_foldl_iff]
  have hinitial : key ∉
      (if location = .path then ObjectNode.closed else .unrestricted : ObjectNode Node).required := by
    split <;> exact List.not_mem_nil
  simp only [hinitial, false_or, List.mem_filter, beq_iff_eq, and_assoc]

/-- Parameters of one location with different names stand in their bucket as they are declared. -/
theorem properties_bucket
    (hnames : ((parameters.filter (·.location == location)).map (·.name)).Nodup) :
    (bucket parameters location).properties =
      (parameters.filter (·.location == location)).map fun p => (.str p.name, .given p.schema) := by
  unfold bucket
  have hinitial :
      (if location = .path then ObjectNode.closed else .unrestricted : ObjectNode Node).properties =
        [] := by
    split <;> rfl
  rw [names_addParameter.properties_foldl hnames, hinitial, List.nil_append]
  rw [hinitial]
  exact fun _ _ => List.not_mem_nil

/-- Unless a header parameter is called so, the bucket of headers does not speak of the content
type. -/
theorem erase_bucket_header
    (hfree : ∀ p ∈ parameters, p.location = .header → p.name ≠ "Content-Type") :
    (bucket parameters .header).erase "Content-Type" = bucket parameters .header := by
  apply ObjectNode.erase_of_fresh
  · rw [mem_keys_bucket_iff]
    rintro ⟨p, hp, hheader, hname⟩
    exact hfree p hp hheader (Value.str.inj hname).symm
  · rw [mem_required_bucket_iff]
    rintro ⟨p, hp, hheader, -, hname⟩
    exact hfree p hp hheader (Value.str.inj hname).symm

/-! ## The request without a body -/

theorem properties_requestBase (parameters : List Parameter) :
    (requestBase parameters).properties =
      bucketOrder.map fun location =>
        (.str (bucketName location), .object (bucket parameters location)) := by
  have hnames : (bucketOrder.map bucketName).Nodup := by decide
  exact (names_addBucket parameters).properties_foldl hnames fun _ _ => List.not_mem_nil

theorem keys_requestBase (parameters : List Parameter) :
    Entries.keys (requestBase parameters).properties =
      (bucketOrder.map bucketName).map Value.str := by
  rw [Entries.keys, properties_requestBase, List.map_map, List.map_map]
  rfl

theorem nodup_keys_requestBase (parameters : List Parameter) :
    (Entries.keys (requestBase parameters).properties).Nodup := by
  have hnames : (bucketOrder.map bucketName).Nodup := by decide
  rw [keys_requestBase]
  exact hnames.map fun _ _ => Value.str.inj

theorem mem_required_requestBase_iff :
    key ∈ (requestBase parameters).required ↔
      ∃ location, (bucket parameters location).properties ≠ [] ∧
        key = .str (bucketName location) := by
  rw [requestBase, (names_addBucket parameters).mem_required_foldl_iff]
  simp [ObjectNode.closed, mem_bucketOrder]

theorem property?_requestBase (parameters : List Parameter) (location : ParameterLocation) :
    (requestBase parameters).property? (bucketName location) =
      some (.object (bucket parameters location)) := by
  rw [ObjectNode.property?, properties_requestBase]
  cases location <;> simp [bucketOrder, bucketName, Entries.field?, Entries.get?]

theorem headersOf_requestBase (parameters : List Parameter) :
    headersOf (requestBase parameters) = bucket parameters .header := by
  have hheaders : (requestBase parameters).property? "headers" =
      some (.object (bucket parameters .header)) := property?_requestBase parameters .header
  rw [headersOf, hheaders]
  rfl

theorem bucketName_ne_body (location : ParameterLocation) : bucketName location ≠ "body" := by
  cases location <;> decide

theorem body_not_mem_keys_requestBase (parameters : List Parameter) :
    .str "body" ∉ Entries.keys (requestBase parameters).properties := by
  rw [keys_requestBase, List.map_map, List.mem_map]
  rintro ⟨location, -, hname⟩
  exact bucketName_ne_body location (Value.str.inj hname)

theorem body_not_mem_required_requestBase (parameters : List Parameter) :
    .str "body" ∉ (requestBase parameters).required := by
  rw [mem_required_requestBase_iff]
  rintro ⟨location, -, hname⟩
  exact bucketName_ne_body location (Value.str.inj hname).symm

/-- A request without a body does not speak of one. -/
theorem erase_requestBase_body (parameters : List Parameter) :
    (requestBase parameters).erase "body" = requestBase parameters :=
  ObjectNode.erase_of_fresh (body_not_mem_keys_requestBase parameters)
    (body_not_mem_required_requestBase parameters)

/-! ## The branches for a body -/

/-- The variants of a body; no body has none. -/
def bodyVariants (body : Option Body) : List ContentVariant :=
  (body.map (·.content)).getD []

theorem requestBranches_of_bare {body : Option Body} (hbare : bodyVariants body = []) :
    requestBranches parameters body = [requestBase parameters] := by
  cases body with
  | none => rfl
  | some body =>
      have hempty : body.content = [] := hbare
      simp [requestBranches, hempty]

theorem requestBranches_of_content {body : Body} (hcontent : body.content ≠ []) :
    requestBranches parameters (some body) =
      body.content.map (withContent (requestBase parameters) body.required) := by
  have hfilled : body.content.isEmpty = false := by
    rw [← Bool.not_eq_true, List.isEmpty_iff]
    exact hcontent
  simp [requestBranches, hfilled, bodyBranches]

end ApiContract.Schema
