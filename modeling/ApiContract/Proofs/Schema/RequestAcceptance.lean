import ApiContract.Proofs.Schema.RequestBranch

/-!
# What the schema of a request accepts

A request with a body is compared with the same request without it: the body goes, and with it the
header that names the content type.  If the body must be sent, the schema accepts exactly what adds
one of the declared variants to an accepted request without a body, and the content type tells the
branches apart.

If the body may be left out, a request that leaves it out is judged by every branch as it is
without a body.  All branches then accept it together, so a choice between several variants, of
which exactly one has to apply, accepts no such request at all.
-/

namespace ApiContract.Schema

variable {admits : Value → Value → Bool} {parameters : List Parameter} {variant : ContentVariant}
  {fields headers : Entries} {x : Value}

/-- A value without one entry, if it has entries. -/
def withoutField (name : String) : Value → Value
  | .map es => .map (Entries.erase es name)
  | v => v

/-- The entries of a message without its body and without the header that names the content
type. -/
def bareEntries (fields : Entries) : Entries :=
  (fields.erase "body").update "headers" (withoutField "Content-Type")

/-- A message without its body and without the header that names the content type. -/
def withoutContent : Value → Value
  | .map fields => .map (bareEntries fields)
  | v => v

/-- A message whose headers name the content type of a variant and whose body has its schema. -/
structure CarriesVariant (admits : Value → Value → Bool) (variant : ContentVariant)
    (fields : Entries) : Prop where
  headers : ∃ headers, fields.field? "headers" = some (.map headers) ∧
    Entries.field? headers "Content-Type" = some (.str variant.contentType)
  body : ∃ body, fields.field? "body" = some body ∧ admits variant.schema body = true

/-- A message without a body whose headers, if it has any, do not name a content type. -/
structure OmitsContent (fields : Entries) : Prop where
  body : fields.has (.str "body") = false
  headers : ∀ headers, fields.field? "headers" = some (.map headers) →
    Entries.has headers (.str "Content-Type") = false

/-! ## Headers -/

/-- Headers that must name the content type do so, and the rest are as without a body. -/
theorem accepts_pinnedHeaders_required_iff {v : Value} {contentType : String}
    (hfree : ∀ p ∈ parameters, p.location = .header → p.name ≠ "Content-Type") :
    accepts admits (.object (pinnedHeaders (bucket parameters .header) true contentType)) v = true ↔
      ∃ headers, v = .map headers ∧
        Entries.field? headers "Content-Type" = some (.str contentType) ∧
          Conforms admits (bucket parameters .header) (Entries.erase headers "Content-Type") := by
  have hpinned : pinnedHeaders (bucket parameters .header) true contentType =
      ((bucket parameters .header).set (.str "Content-Type") (.pinned (.str contentType))).require
        (.str "Content-Type") := rfl
  rw [hpinned, accepts_object_iff]
  refine exists_congr fun headers => and_congr_right fun _ => ?_
  rw [conforms_require_iff, conforms_set_iff (nodup_keys_bucket parameters .header),
    erase_bucket_header hfree]
  simp only [accepts_pinned_iff]
  constructor
  · intro hheaders
    obtain ⟨hpresent, -, hvalue, hrest⟩ := hheaders
    obtain ⟨v, hv⟩ := Entries.has_str_eq_true_iff_field?.mp hpresent
    obtain rfl := hvalue v hv
    exact ⟨hv, hrest⟩
  · intro hheaders
    obtain ⟨hv, hrest⟩ := hheaders
    have hpresent : Entries.has headers (.str "Content-Type") = true :=
      Entries.has_str_of_field? hv
    refine ⟨hpresent, fun _ => hpresent, ?_, hrest⟩
    intro v hvalue
    exact Option.some.inj (hvalue.symm.trans hv)

/-- Where the content type is not named, pinning it without requiring it makes no difference. -/
theorem conforms_pinnedHeaders_optional_iff {declared : ObjectNode Node} {contentType : String}
    (habsent : headers.has (.str "Content-Type") = false) :
    Conforms admits (pinnedHeaders declared false contentType) headers ↔
      Conforms admits declared headers := by
  have hpinned : pinnedHeaders declared false contentType =
      declared.set (.str "Content-Type") (.pinned (.str contentType)) := rfl
  rw [hpinned, conforms_iff_of_absent habsent, conforms_iff_of_absent habsent,
    ObjectNode.required_set, ObjectNode.erase_set]

/-! ## One branch -/

/-- A request without a body, told apart into its headers and the rest. -/
theorem conforms_requestBase_iff :
    Conforms admits (requestBase parameters) fields ↔
      (.str "headers" ∈ (requestBase parameters).required →
          fields.has (.str "headers") = true) ∧
        (∀ v, fields.field? "headers" = some v →
          accepts admits (.object (bucket parameters .header)) v = true) ∧
          Conforms admits ((requestBase parameters).erase "headers") (fields.erase "headers") :=
  conforms_iff_of_property (nodup_keys_requestBase parameters)
    (property?_requestBase parameters .header)

/-- A request with a body, told apart into its body, its headers and the rest. -/
theorem conforms_carrying_iff {required : Bool} :
    Conforms admits (carrying (requestBase parameters) required variant) fields ↔
      (∀ v, fields.field? "body" = some v → admits variant.schema v = true) ∧
        (.str "headers" ∈ (requestBase parameters).required →
          fields.has (.str "headers") = true) ∧
          (∀ v, fields.field? "headers" = some v →
            accepts admits (.object (pinnedHeaders (bucket parameters .header) required
              variant.contentType)) v = true) ∧
            Conforms admits ((requestBase parameters).erase "headers")
              ((fields.erase "body").erase "headers") := by
  have hkeys := nodup_keys_requestBase parameters
  have hheaders : "headers" ≠ "body" := by decide
  have hname : (Value.str "headers") ≠ .str "body" := fun heq => hheaders (Value.str.inj heq)
  rw [carrying, headersOf_requestBase, conforms_set_iff (Entries.nodup_keys_insert hkeys),
    ObjectNode.erase_set_of_ne hheaders, erase_requestBase_body, conforms_set_iff hkeys,
    Entries.has_erase_of_ne hname, Entries.field?_erase_of_ne hheaders, ObjectNode.required_set]
  simp only [accepts_given]
  constructor
  · intro hparts
    exact hparts.2
  · intro hparts
    refine ⟨?_, hparts⟩
    intro hbody
    exact absurd hbody (body_not_mem_required_requestBase parameters)

/-- What is left of a request without its content is told apart like the request. -/
theorem conforms_bareEntries_iff :
    Conforms admits (requestBase parameters) (bareEntries fields) ↔
      (.str "headers" ∈ (requestBase parameters).required →
          fields.has (.str "headers") = true) ∧
        (∀ v, fields.field? "headers" = some v →
          accepts admits (.object (bucket parameters .header))
            (withoutField "Content-Type" v) = true) ∧
          Conforms admits ((requestBase parameters).erase "headers")
            ((fields.erase "body").erase "headers") := by
  have hheaders : "headers" ≠ "body" := by decide
  have hname : (Value.str "headers") ≠ .str "body" := fun heq => hheaders (Value.str.inj heq)
  rw [conforms_requestBase_iff, bareEntries, Entries.has_update, Entries.has_erase_of_ne hname,
    Entries.field?_update_self, Entries.field?_erase_of_ne hheaders, Entries.erase_update]
  simp only [Option.map_eq_some_iff, forall_exists_index, and_imp, forall_apply_eq_imp_iff₂]

theorem conforms_withContent_required_iff
    (hfree : ∀ p ∈ parameters, p.location = .header → p.name ≠ "Content-Type") :
    Conforms admits (withContent (requestBase parameters) true variant) fields ↔
      CarriesVariant admits variant fields ∧
        Conforms admits (requestBase parameters) (bareEntries fields) := by
  have hbranch : withContent (requestBase parameters) true variant =
      ((carrying (requestBase parameters) true variant).require (.str "headers")).require
        (.str "body") := rfl
  rw [hbranch, conforms_require_iff, conforms_require_iff, conforms_carrying_iff,
    conforms_bareEntries_iff]
  constructor
  · intro haccepted
    obtain ⟨hbody, hpresent, hvariant, hrequired, hbucket, hrest⟩ := haccepted
    obtain ⟨body, hbody⟩ := Entries.has_str_eq_true_iff_field?.mp hbody
    obtain ⟨v, hv⟩ := Entries.has_str_eq_true_iff_field?.mp hpresent
    obtain ⟨headers, rfl, htype, hothers⟩ :=
      (accepts_pinnedHeaders_required_iff hfree).mp (hbucket v hv)
    refine ⟨⟨⟨headers, hv, htype⟩, body, hbody, hvariant body hbody⟩, hrequired, ?_, hrest⟩
    intro w hw
    obtain rfl : .map headers = w := Option.some.inj (hv.symm.trans hw)
    exact accepts_object_iff.mpr ⟨_, rfl, hothers⟩
  · intro hadded
    obtain ⟨⟨⟨headers, hv, htype⟩, body, hbody, hadmitted⟩, hrequired, hbucket, hrest⟩ := hadded
    refine ⟨Entries.has_str_of_field? hbody, Entries.has_str_of_field? hv, ?_, hrequired, ?_,
      hrest⟩
    · intro w hw
      rwa [← Option.some.inj (hbody.symm.trans hw)]
    · intro w hw
      obtain rfl : .map headers = w := Option.some.inj (hv.symm.trans hw)
      obtain ⟨_, ⟨⟩, hothers⟩ := accepts_object_iff.mp (hbucket _ hv)
      exact (accepts_pinnedHeaders_required_iff hfree).mpr ⟨headers, rfl, htype, hothers⟩

/-- A branch for a body that must be sent accepts what adds its variant to an accepted request
without a body. -/
theorem accepts_withContent_required_iff
    (hfree : ∀ p ∈ parameters, p.location = .header → p.name ≠ "Content-Type") :
    accepts admits (.object (withContent (requestBase parameters) true variant)) x = true ↔
      ∃ fields, x = .map fields ∧ CarriesVariant admits variant fields ∧
        accepts admits (.object (requestBase parameters)) (withoutContent x) = true := by
  rw [accepts_object_iff]
  refine exists_congr fun fields => and_congr_right ?_
  rintro rfl
  rw [conforms_withContent_required_iff hfree, withoutContent, accepts_object_iff]
  simp

theorem conforms_withContent_optional_iff (homits : OmitsContent fields) :
    Conforms admits (withContent (requestBase parameters) false variant) fields ↔
      Conforms admits (requestBase parameters) fields := by
  have hbranch : withContent (requestBase parameters) false variant =
      carrying (requestBase parameters) false variant := rfl
  have hnone : fields.field? "body" = none := Entries.field?_eq_none_of_has homits.body
  have hbody : .str "body" ∉ fields.keys := Entries.field?_eq_none_iff.mp hnone
  rw [hbranch, conforms_carrying_iff, conforms_requestBase_iff, Entries.erase_of_not_mem hbody]
  have hjudged : ∀ v, fields.field? "headers" = some v →
      (accepts admits (.object (pinnedHeaders (bucket parameters .header) false
          variant.contentType)) v = true ↔
        accepts admits (.object (bucket parameters .header)) v = true) := by
    intro v hv
    rw [accepts_object_iff, accepts_object_iff]
    refine exists_congr fun headers => and_congr_right ?_
    rintro rfl
    exact conforms_pinnedHeaders_optional_iff (homits.headers headers hv)
  constructor
  · intro hparts
    obtain ⟨-, hrequired, hbucket, hrest⟩ := hparts
    exact ⟨hrequired, fun v hv => (hjudged v hv).mp (hbucket v hv), hrest⟩
  · intro hparts
    obtain ⟨hrequired, hbucket, hrest⟩ := hparts
    refine ⟨?_, hrequired, fun v hv => (hjudged v hv).mpr (hbucket v hv), hrest⟩
    intro v hv
    simp [hnone] at hv

/-- A branch for a body that may be left out judges a request that leaves it out as it is without a
body. -/
theorem accepts_withContent_optional_iff (homits : ∀ fields, x = .map fields → OmitsContent fields) :
    accepts admits (.object (withContent (requestBase parameters) false variant)) x = true ↔
      accepts admits (.object (requestBase parameters)) x = true := by
  rw [accepts_object_iff, accepts_object_iff]
  refine exists_congr fun fields => and_congr_right fun hx => ?_
  exact conforms_withContent_optional_iff (homits fields hx)

/-! ## The choice between the branches -/

theorem accepts_choice_singleton_iff {branch : ObjectNode Node} :
    accepts admits (choice [branch]) x = true ↔ accepts admits (.object branch) x = true := by
  rw [choice, List.map_singleton, accepts_oneOf_iff (List.pairwise_singleton _ _)]
  simp

/-- Of branches that all judge a value alike, one accepts it exactly if it is the only one. -/
theorem accepts_oneOf_iff_of_alike {branches : List Node} {accepted : Prop}
    (halike : ∀ branch ∈ branches, (accepts admits branch x = true ↔ accepted)) :
    accepts admits (.oneOf branches) x = true ↔ accepted ∧ branches.length = 1 := by
  rw [accepts, beq_iff_eq, countAccepting_eq_countP]
  by_cases haccepted : accepted
  · have hall : branches.countP (accepts admits · x) = branches.length :=
      List.countP_eq_length.mpr fun branch hbranch => (halike branch hbranch).mpr haccepted
    simp [hall, haccepted]
  · have hnone : branches.countP (accepts admits · x) = 0 :=
      List.countP_eq_zero.mpr fun branch hbranch haccepts =>
        haccepted ((halike branch hbranch).mp haccepts)
    simp [hnone, haccepted]

/-- Branches that must name different content types exclude each other. -/
theorem requestBranches_exclusive {variants : List ContentVariant}
    (hfree : ∀ p ∈ parameters, p.location = .header → p.name ≠ "Content-Type")
    (hdistinct : (variants.map (·.contentType)).Nodup) (admits : Value → Value → Bool)
    (x : Value) :
    (variants.map fun variant =>
        Node.object (withContent (requestBase parameters) true variant)).Pairwise fun left right =>
      ¬(accepts admits left x = true ∧ accepts admits right x = true) := by
  rw [List.Nodup, List.pairwise_map] at hdistinct
  rw [List.pairwise_map]
  refine hdistinct.imp fun {left right} hne => ?_
  intro hboth
  obtain ⟨hleft, hright⟩ := hboth
  obtain ⟨fields, rfl, hleft, -⟩ := (accepts_withContent_required_iff hfree).mp hleft
  obtain ⟨_, ⟨⟩, hright, -⟩ := (accepts_withContent_required_iff hfree).mp hright
  obtain ⟨headers, hheaders, hleftType⟩ := hleft.headers
  obtain ⟨others, hothers, hrightType⟩ := hright.headers
  obtain rfl : headers = others := by simpa [hheaders] using hothers
  apply hne
  simpa [hleftType] using hrightType

/-! ## A body that must be sent -/

/-- Of two schemas, the second accepts exactly the messages that add a declared variant to what the
first accepts, and none of its branches accepts what another one accepts. -/
structure AddsContent (body : Body) (bare schema : Node) : Prop where
  accepts_iff : ∀ admits x, accepts admits schema x = true ↔
    ∃ fields, x = .map fields ∧
      (∃ variant ∈ body.content, CarriesVariant admits variant fields) ∧
        accepts admits bare (withoutContent x) = true
  exclusive : ∃ branches, schema = .oneOf branches ∧ ∀ admits x,
    branches.Pairwise fun left right =>
      ¬(accepts admits left x = true ∧ accepts admits right x = true)

theorem requestSchema_addsContent {body : Body}
    (hfree : ∀ p ∈ parameters, p.location = .header → p.name ≠ "Content-Type")
    (hrequired : body.required = true) (hcontent : body.content ≠ [])
    (hdistinct : (body.content.map (·.contentType)).Nodup) :
    ∃ bare schema, (requestSchema parameters none).outcome = .ok bare ∧
      (requestSchema parameters (some body)).outcome = .ok schema ∧
        AddsContent body bare schema := by
  have hbranches : choice (requestBranches parameters (some body)) =
      .oneOf (body.content.map fun variant =>
        .object (withContent (requestBase parameters) true variant)) := by
    rw [requestBranches_of_content hcontent, hrequired, choice, List.map_map]
    rfl
  have hexclusive := requestBranches_exclusive hfree hdistinct
  refine ⟨_, _, rfl, rfl, ?_, ?_⟩
  · intro admits x
    rw [hbranches, accepts_oneOf_iff (hexclusive admits x)]
    simp only [List.mem_map, exists_exists_and_eq_and, accepts_withContent_required_iff hfree,
      requestBranches, accepts_choice_singleton_iff]
    constructor
    · intro haccepted
      obtain ⟨variant, hvariant, fields, hx, hcarries, hbare⟩ := haccepted
      exact ⟨fields, hx, ⟨variant, hvariant, hcarries⟩, hbare⟩
    · intro hadded
      obtain ⟨fields, hx, ⟨variant, hvariant, hcarries⟩, hbare⟩ := hadded
      exact ⟨variant, hvariant, fields, hx, hcarries, hbare⟩
  · exact ⟨_, hbranches, hexclusive⟩

/-- The parameters of an upload: where to, and a header for tracing. -/
def uploadParameters : List Parameter :=
  [⟨"folder", .path, .map [(.str "type", .str "string")], true⟩,
    ⟨"X-Trace", .header, .map [(.str "type", .str "string")], true⟩]

/-- An upload as one of two media types. -/
def uploadBody (required : Bool) : Body :=
  ⟨[⟨"application/json", .map [(.str "type", .str "object")]⟩,
    ⟨"text/plain", .map [(.str "type", .str "string")]⟩], required⟩

theorem uploadBody_addsContent :
    (∀ p ∈ uploadParameters, p.location = .header → p.name ≠ "Content-Type") ∧
      ((uploadBody true).content.map (·.contentType)).Nodup ∧
        ∃ bare schema, (requestSchema uploadParameters none).outcome = .ok bare ∧
          (requestSchema uploadParameters (some (uploadBody true))).outcome = .ok schema ∧
            AddsContent (uploadBody true) bare schema := by
  have hfree : ∀ p ∈ uploadParameters, p.location = .header → p.name ≠ "Content-Type" := by
    simp [uploadParameters]
  have hdistinct : ((uploadBody true).content.map (·.contentType)).Nodup := by decide
  exact ⟨hfree, hdistinct, requestSchema_addsContent hfree rfl (List.cons_ne_nil _ _) hdistinct⟩

/-! ## A body that may be left out -/

/-- Requests that leave the body out are accepted exactly if they are accepted without a body and
the body has a single variant: several branches all apply to such a request, or none does. -/
theorem requestSchema_accepts_omitting {body : Body} (hoptional : body.required = false)
    (hcontent : body.content ≠ []) :
    ∃ bare schema, (requestSchema parameters none).outcome = .ok bare ∧
      (requestSchema parameters (some body)).outcome = .ok schema ∧
        ∀ admits x, (∀ fields, x = .map fields → OmitsContent fields) →
          (accepts admits schema x = true ↔
            accepts admits bare x = true ∧ body.content.length = 1) := by
  refine ⟨_, _, rfl, rfl, ?_⟩
  intro admits x homits
  rw [requestBranches_of_content hcontent, hoptional, requestBranches,
    accepts_choice_singleton_iff, choice, List.map_map, accepts_oneOf_iff_of_alike,
    List.length_map]
  intro branch hbranch
  obtain ⟨variant, -, rfl⟩ := List.mem_map.mp hbranch
  exact accepts_withContent_optional_iff homits

theorem uploadBody_accepts_omitting :
    (uploadBody false).content ≠ [] ∧
      ∃ bare schema, (requestSchema uploadParameters none).outcome = .ok bare ∧
        (requestSchema uploadParameters (some (uploadBody false))).outcome = .ok schema ∧
          ∀ admits x, (∀ fields, x = .map fields → OmitsContent fields) →
            (accepts admits schema x = true ↔
              accepts admits bare x = true ∧ (uploadBody false).content.length = 1) :=
  ⟨List.cons_ne_nil _ _, requestSchema_accepts_omitting rfl (List.cons_ne_nil _ _)⟩

/-- Requests that leave the body out are judged as if no body were declared. -/
def IsOmittable (parameters : List Parameter) (body : Body) : Prop :=
  ∃ bare schema, (requestSchema parameters none).outcome = .ok bare ∧
    (requestSchema parameters (some body)).outcome = .ok schema ∧
      ∀ admits x, (∀ fields, x = .map fields → OmitsContent fields) →
        (accepts admits schema x = true ↔ accepts admits bare x = true)

/-- Of two variants neither can be left out: the request with nothing in it is accepted without a
body, but both branches apply to it. -/
theorem uploadBody_not_isOmittable :
    (uploadBody false).required = false ∧ (uploadBody false).content ≠ [] ∧
      ((uploadBody false).content.map (·.contentType)).Nodup ∧
        ¬IsOmittable [] (uploadBody false) := by
  refine ⟨rfl, List.cons_ne_nil _ _, by decide, ?_⟩
  rintro ⟨_, _, ⟨⟩, ⟨⟩, hjudged⟩
  have hempty : ∀ fields, Value.map [] = .map fields → OmitsContent fields := by
    rintro _ ⟨⟩
    exact ⟨rfl, fun headers hheaders => by simp [Entries.field?, Entries.get?] at hheaders⟩
  have hbare : accepts (fun _ _ => true) (choice (requestBranches [] none)) (.map []) = true := by
    decide +kernel
  have hboth := (hjudged _ _ hempty).mpr hbare
  exact absurd hboth (by decide +kernel)

end ApiContract.Schema
