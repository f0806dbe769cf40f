import ApiContract.Proofs.Schema.RequestBranch
import ApiContract.Proofs.Schema.Success
import ApiContract.Schema.Component

/-!
# Components have the shape of what is declared inline

A component response has no status, and a component body has no buckets besides the headers.  Both
are built from bases of their own.  What is built on a base does not look at the names that set the
bases apart, so a component has the branches of its inline counterpart with those names forgotten.

The main statement gives the node of a component through the inline construction, failures
included.
-/

namespace ApiContract.Schema

namespace ObjectNode

variable {ν : Type} {o : ObjectNode ν} {name other : String} {schema : ν}

/-- The object schema without one of its properties.  What it requires stays. -/
def dropProperty (o : ObjectNode ν) (name : String) : ObjectNode ν :=
  { o with properties := Entries.erase o.properties name }

theorem erase_require_of_ne (hother : other ≠ name) :
    (o.require (.str other)).erase name = (o.erase name).require (.str other) := by
  have hkept : ∀ key : Value, key.same (.str other) = true → key.same (.str name) = false := by
    intro key hsame
    rw [Value.eq_str_of_same hsame, Value.same_str_eq_false_iff]
    exact fun heq => hother (Value.str.inj heq)
  have hany : (o.erase name).required.any (·.same (.str other)) =
      o.required.any (·.same (.str other)) := by
    rw [erase, List.any_filter]
    congr 1
    funext key
    cases hsame : key.same (.str other) with
    | false => simp
    | true => simp [hkept key hsame]
  unfold require
  rw [hany]
  split
  · rfl
  · simp [erase, hkept (.str other) (by simp)]

theorem dropProperty_require (o : ObjectNode ν) (key : Value) (name : String) :
    (o.require key).dropProperty name = (o.dropProperty name).require key := by
  unfold require dropProperty
  dsimp only
  split <;> rfl

end ObjectNode

/-! ## Names that are forgotten -/

/-- An operation on messages that forgets something about one name and nothing about the others. -/
structure Forgets (name : String) (forget : ObjectNode Node → ObjectNode Node) : Prop where
  set : ∀ {message : ObjectNode Node} {other : String} {schema : Node}, other ≠ name →
    forget (message.set (.str other) schema) = (forget message).set (.str other) schema
  require : ∀ {message : ObjectNode Node} {other : String}, other ≠ name →
    forget (message.require (.str other)) = (forget message).require (.str other)
  property? : ∀ {message : ObjectNode Node} {other : String}, other ≠ name →
    (forget message).property? other = message.property? other

theorem forgets_erase (name : String) : Forgets name (·.erase name) where
  set := ObjectNode.erase_set_of_ne
  require := ObjectNode.erase_require_of_ne
  property? := Entries.field?_erase_of_ne

theorem forgets_dropProperty (name : String) : Forgets name (·.dropProperty name) where
  set hother := by
    rw [ObjectNode.dropProperty, ObjectNode.set, Entries.erase_insert_of_ne hother]
    rfl
  require _ := ObjectNode.dropProperty_require _ _ _
  property? := Entries.field?_erase_of_ne

/-- A message carries its content alike whatever else is known of it. -/
theorem Forgets.withContent {name : String} {forget : ObjectNode Node → ObjectNode Node}
    (hforget : Forgets name forget) (hheaders : "headers" ≠ name) (hbody : "body" ≠ name)
    (message : ObjectNode Node) (required : Bool) (variant : ContentVariant) :
    forget (withContent message required variant) =
      withContent (forget message) required variant := by
  have hsame : headersOf (forget message) = headersOf message := by
    rw [headersOf, hforget.property? hheaders, headersOf]
  have hcarrying : forget (carrying message required variant) =
      carrying (forget message) required variant := by
    rw [carrying, hforget.set hbody, hforget.set hheaders, ← hsame, carrying]
  rw [withContent_eq, withContent_eq]
  split
  · simp only [ObjectNode.requireAll, List.foldl_cons, List.foldl_nil]
    rw [hforget.require hbody, hforget.require hheaders, hcarrying]
  · exact hcarrying

/-! ## Responses -/

theorem erase_closed (name : String) :
    (ObjectNode.closed : ObjectNode Node).erase name = .closed :=
  rfl

/-- Without the status the base of a response is the one of a component. -/
theorem erase_responseBase (r : Response) :
    (responseBase r true).erase "status" = responseBase r false := by
  have hstatus : ∀ status : String,
      ((ObjectNode.closed.set (.str "status") (.pinned (.str status))).require
        (.str "status") : ObjectNode Node).erase "status" = .closed := by
    intro status
    rw [ObjectNode.erase_require, ObjectNode.erase_set, erase_closed]
  have hforget := forgets_erase "status"
  unfold responseBase
  cases r.status with
  | none =>
      dsimp only
      split
      · rfl
      · rw [hforget.require (by decide), hforget.set (by decide), erase_closed]
  | some status =>
      simp only [if_true, Bool.false_eq_true, if_false]
      split
      · exact hstatus status
      · rw [hforget.require (by decide), hforget.set (by decide), hstatus]

theorem erase_responseBranches (r : Response) :
    (responseBranches r true).map (·.erase "status") = responseBranches r false := by
  unfold responseBranches
  split
  · rw [List.map_map]
    refine List.map_congr_left fun variant _ => ?_
    rw [Function.comp_apply, (forgets_erase "status").withContent (by decide) (by decide),
      erase_responseBase]
  · rw [List.map_cons, List.map_nil, erase_responseBase]

/-- The branches of a component do not depend on a status. -/
theorem responseBranches_withStatus (r : Response) (status : Option String) :
    responseBranches { r with status } false = responseBranches r false := by
  have hbase : responseBase { r with status } false = responseBase r false := by
    unfold responseBase
    dsimp only
    cases status <;> cases r.status <;> simp
  unfold responseBranches
  rw [hbase]

theorem resolveResponse_eq_map {response : Value} (hpresent : response.isNull = false)
    (status : Value) :
    resolveResponse status response = (resolveResponse .null response).map fun r =>
      { r with status := if status.isNull then none else some status.shown } := by
  unfold resolveResponse
  rw [hpresent]
  cases resolveHeaders response with
  | error fault => rfl
  | ok headers =>
      cases resolveContent response with
      | error fault => rfl
      | ok content => rfl

/-! ## Bodies -/

/-- A request without the buckets that a component body does not have. -/
def withoutBuckets (request : ObjectNode Node) : ObjectNode Node :=
  ((request.dropProperty "path").dropProperty "cookies").dropProperty "query"

theorem withoutBuckets_requestBase : withoutBuckets (requestBase []) = bodyBase := by
  simp [withoutBuckets, ObjectNode.dropProperty, requestBase, bucketOrder, addBucket, bucket,
    bucketName, bodyBase, ObjectNode.set, ObjectNode.closed, ObjectNode.unrestricted,
    Entries.insert, Entries.erase]

theorem withoutBuckets_withContent (message : ObjectNode Node) (required : Bool)
    (variant : ContentVariant) :
    withoutBuckets (withContent message required variant) =
      withContent (withoutBuckets message) required variant := by
  unfold withoutBuckets
  rw [(forgets_dropProperty "path").withContent (by decide) (by decide),
    (forgets_dropProperty "cookies").withContent (by decide) (by decide),
    (forgets_dropProperty "query").withContent (by decide) (by decide)]

/-- A body that is read from a declaration has content. -/
theorem content_ne_nil_of_resolveBody {requestBody : Value} {body : Body}
    (hread : resolveBody requestBody = .ok (some body)) : body.content ≠ [] := by
  unfold resolveBody at hread
  split at hread
  · cases hread
  · obtain ⟨declared, -, hread⟩ := bind_eq_ok_iff.mp hread
    cases declared with
    | map entries =>
        obtain ⟨content, -, hread⟩ := bind_eq_ok_iff.mp hread
        cases content with
        | nil => cases hread
        | cons first others =>
            obtain ⟨flag, -, hread⟩ := bind_eq_ok_iff.mp hread
            cases hread
            exact List.cons_ne_nil first others
    | _ => cases hread

/-- The node of a component body has the branches of a request that carries the body. -/
theorem bodyComponent_eq_choice {body : Option Body} (hfilled : ∀ b ∈ body, b.content ≠ []) :
    bodyComponent body = choice ((requestBranches [] body).map withoutBuckets) := by
  cases body with
  | none => rw [requestBranches, List.map_singleton, withoutBuckets_requestBase, bodyComponent]
  | some body =>
      rw [requestBranches_of_content (hfilled body rfl), List.map_map, bodyComponent, bodyBranches]
      refine congrArg choice (List.map_congr_left fun variant _ => ?_)
      rw [Function.comp_apply, withoutBuckets_withContent, withoutBuckets_requestBase]

/-! ## Components -/

/-- The node of a component is made of the branches of its inline counterpart: those of a response
without the status, and those of a request with no parameters without the buckets for them.  Either
is a failure exactly if the other is, and then the same one. -/
theorem componentNode_eq_inline (name : Value) (entries : Entries) :
    (∀ status : Value, componentNode .responses name (.map entries) =
      (resolveResponse status (.map entries)).map fun r =>
        choice ((responseBranches r true).map (·.erase "status"))) ∧
    componentNode .requestBodies name (.map entries) =
      (resolveBody (.map entries)).map fun body =>
        choice ((requestBranches [] body).map withoutBuckets) := by
  constructor
  -- A status only adds the property that is forgotten again.
  · intro status
    rw [resolveResponse_eq_map rfl status, componentNode]
    cases resolveResponse .null (.map entries) with
    | error fault => rfl
    | ok r =>
        simp only [Except.map, erase_responseBranches, responseBranches_withStatus]
        rfl
  · rw [componentNode]
    cases hread : resolveBody (.map entries) with
    | error fault => rfl
    | ok body =>
        simp only [Except.map, Value.isNull, Bool.false_eq_true, if_false]
        -- A body without content would have no branch of its own as a component.
        rw [bodyComponent_eq_choice]
        rintro b rfl
        exact content_ne_nil_of_resolveBody hread

end ApiContract.Schema
