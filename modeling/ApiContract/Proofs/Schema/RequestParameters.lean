import ApiContract.Proofs.Schema.DeclaredOperation

/-!
# Which parameters a request has

Every branch of a request has the same buckets.  The bucket of a location has a property for every
parameter that is declared there: those of the operation come first, and those of its path item
follow unless the operation shadows them.  Schema and requirement of a property come from the one
declaration that stands for it.  The content type of a body is left aside: the body sets it.
-/

namespace ApiContract.Schema

variable {pathItem declaration : Value} {location : ParameterLocation} {ds : List Value}
  {ps : List Parameter} {o : ObjectNode Node} {name : String}

/-- The declarations of a location. -/
def declaredIn (location : ParameterLocation) (ds : List Value) : List Value :=
  ds.filter fun d => (memberIn d "in").same (.str location.name)

/-- The declarations of all names but one. -/
def besideName (name : String) (ds : List Value) : List Value :=
  ds.filter fun d => !(memberIn d "name").same (.str name)

/-- A property that has the name and the schema of a declaration. -/
structure DeclaresProperty (declaration : Value) (property : Value × Node) : Prop where
  name : memberIn declaration "name" = property.1
  schema : ∃ schema,
    deriveSchema declaration (.str s!"parameter '{property.1.shown}'") = .ok schema ∧
      property.2 = .given schema

/-- A bucket that has a property for each of some declarations, in order, and requires those that
are declared so; in the path this is all of them. -/
structure HoldsDeclared (location : ParameterLocation) (ds : List Value) (o : ObjectNode Node) :
    Prop where
  properties : List.Forall₂ DeclaresProperty ds o.properties
  required : ∀ key, key ∈ o.required ↔
    ∃ d ∈ ds, memberIn d "name" = key ∧ (location = .path ∨ (memberIn d "required").truthy = true)
  path : location = .path → ∀ key ∈ Entries.keys o.properties, key ∈ o.required

/-- A branch whose buckets hold what is declared for an operation.  Where the operation has a body
the content type among the headers is left aside. -/
def BranchDeclares (pathItem declaration : Value) (branch : ObjectNode Node) : Prop :=
  ∀ location, ∃ o, branch.property? (bucketName location) = some (.object o) ∧
    if location = .header ∧ bodyMedia declaration ≠ [] then
      HoldsDeclared location
        (besideName "Content-Type" (declaredIn location (operationParameters pathItem declaration)))
        (o.erase "Content-Type")
    else HoldsDeclared location (declaredIn location (operationParameters pathItem declaration)) o

/-- The schema of an operation in whose request all branches hold what is declared. -/
def DeclaresParameters (pathItem declaration : Value) (node : Node) : Prop :=
  ∃ request responses, node = OperationShape.node ⟨choice request, responses⟩ ∧
    ∀ branch ∈ request, BranchDeclares pathItem declaration branch

/-! ## One bucket -/

theorem declaresProperty_of_readsParameter {p : Parameter} (hreads : ReadsParameter declaration p) :
    DeclaresProperty declaration (.str p.name, .given p.schema) where
  name := hreads.name
  schema := ⟨p.schema, hreads.schema, rfl⟩

theorem readsParameters_declaredIn (hall : List.Forall₂ ReadsParameter ds ps)
    (location : ParameterLocation) :
    List.Forall₂ ReadsParameter (declaredIn location ds) (ps.filter (·.location == location)) := by
  apply List.rel_filter ?_ hall
  intro d p hreads
  have hplace : (memberIn d "in").same (.str location.name) = (p.location == location) := by
    rw [hreads.location, Value.same_str, Bool.eq_iff_iff, beq_iff_eq, beq_iff_eq]
    exact ParameterLocation.name_injective.eq_iff
  simp only [hplace]

theorem mem_required_bucket_iff_declared (hall : List.Forall₂ ReadsParameter ds ps) {key : Value} :
    key ∈ (bucket ps location).required ↔
      ∃ d ∈ declaredIn location ds, memberIn d "name" = key ∧
        (location = .path ∨ (memberIn d "required").truthy = true) := by
  have hreads := readsParameters_declaredIn hall location
  rw [mem_required_bucket_iff]
  constructor
  · rintro ⟨p, hp, rfl, hflag, rfl⟩
    obtain ⟨d, hd, hdeclares⟩ := exists_of_mem_right hreads (b := p) (by simpa using hp)
    rw [hdeclares.required] at hflag
    exact ⟨d, hd, hdeclares.name, by simpa using hflag⟩
  · rintro ⟨d, hd, rfl, hflag⟩
    obtain ⟨p, hp, hdeclares⟩ := exists_of_mem_left hreads hd
    obtain ⟨hp, hlocation⟩ := List.mem_filter.mp hp
    rw [beq_iff_eq] at hlocation
    refine ⟨p, hp, hlocation, ?_, hdeclares.name⟩
    rw [hdeclares.required, hlocation]
    simpa using hflag

theorem holdsDeclared_bucket (hall : List.Forall₂ ReadsParameter ds ps)
    (hkeys : (ps.map (·.key)).Nodup) (location : ParameterLocation) :
    HoldsDeclared location (declaredIn location ds) (bucket ps location) := by
  have hreads := readsParameters_declaredIn hall location
  have hproperties := properties_bucket (nodup_name_of_nodup_key hkeys location)
  constructor
  · rw [hproperties, List.forall₂_map_right_iff]
    exact hreads.imp fun _ _ hdeclares => declaresProperty_of_readsParameter hdeclares
  · exact fun key => mem_required_bucket_iff_declared hall
  · rintro rfl key hkey
    rw [hproperties, Entries.keys, List.map_map] at hkey
    obtain ⟨p, hp, rfl⟩ := List.mem_map.mp hkey
    obtain ⟨d, hd, hdeclares⟩ := exists_of_mem_right hreads hp
    exact (mem_required_bucket_iff_declared hall).mpr ⟨d, hd, hdeclares.name, Or.inl rfl⟩

/-- Setting one name aside leaves the declarations of all others. -/
theorem HoldsDeclared.erase (hholds : HoldsDeclared location ds o) (name : String) :
    HoldsDeclared location (besideName name ds) (o.erase name) := by
  constructor
  · apply List.rel_filter ?_ hholds.properties
    intro d property hdeclares
    simp only [hdeclares.name]
  · intro key
    rw [ObjectNode.mem_required_erase_iff, hholds.required]
    simp only [besideName, List.mem_filter, Bool.not_eq_true', Value.same_str_eq_false_iff]
    constructor
    · rintro ⟨⟨d, hd, rfl, hflag⟩, hne⟩
      exact ⟨d, ⟨hd, hne⟩, rfl, hflag⟩
    · rintro ⟨d, ⟨hd, hne⟩, rfl, hflag⟩
      exact ⟨⟨d, hd, rfl, hflag⟩, hne⟩
  · intro hpath key hkey
    obtain ⟨property, hproperty, rfl⟩ := List.mem_map.mp hkey
    obtain ⟨hproperty, hne⟩ := Entries.mem_erase_iff.mp hproperty
    exact ObjectNode.mem_required_erase_iff.mpr
      ⟨hholds.path hpath _ (List.mem_map_of_mem hproperty), hne⟩

/-! ## All branches -/

/-- A body replaces one bucket only, the one of the headers. -/
theorem property?_bucket_withContent {required : Bool} {variant : ContentVariant}
    (hlocation : location ≠ .header) :
    (withContent (requestBase ps) required variant).property? (bucketName location) =
      some (.object (bucket ps location)) := by
  have hheaders : bucketName location ≠ "headers" := fun heq =>
    hlocation (bucketName_injective heq)
  rw [property?_withContent_of_ne hheaders (bucketName_ne_body location), property?_requestBase]

theorem branchDeclares_requestBase
    (hall : List.Forall₂ ReadsParameter (operationParameters pathItem declaration) ps)
    (hkeys : (ps.map (·.key)).Nodup) (hmedia : bodyMedia declaration = []) :
    BranchDeclares pathItem declaration (requestBase ps) := by
  intro location
  refine ⟨bucket ps location, property?_requestBase ps location, ?_⟩
  rw [if_neg fun hpinned => hpinned.2 hmedia]
  exact holdsDeclared_bucket hall hkeys location

theorem branchDeclares_withContent
    (hall : List.Forall₂ ReadsParameter (operationParameters pathItem declaration) ps)
    (hkeys : (ps.map (·.key)).Nodup) (hmedia : bodyMedia declaration ≠ []) (required : Bool)
    (variant : ContentVariant) :
    BranchDeclares pathItem declaration (withContent (requestBase ps) required variant) := by
  intro location
  by_cases hheader : location = .header
  · subst hheader
    refine ⟨_, property?_withContent_headers, ?_⟩
    rw [if_pos ⟨rfl, hmedia⟩, headersOf_requestBase, erase_pinnedHeaders]
    exact (holdsDeclared_bucket hall hkeys .header).erase "Content-Type"
  · refine ⟨_, property?_bucket_withContent hheader, ?_⟩
    rw [if_neg fun hpinned => hheader hpinned.1]
    exact holdsDeclared_bucket hall hkeys location

theorem branchDeclares_of_mem_requestBranches {body : Option Body}
    (hall : List.Forall₂ ReadsParameter (operationParameters pathItem declaration) ps)
    (hkeys : (ps.map (·.key)).Nodup)
    (hbody : List.Forall₂ ReadsVariant (bodyMedia declaration) (bodyVariants body))
    {branch : ObjectNode Node} (hbranch : branch ∈ requestBranches ps body) :
    BranchDeclares pathItem declaration branch := by
  by_cases hbare : bodyVariants body = []
  · have hmedia : bodyMedia declaration = [] := by
      rw [hbare] at hbody
      exact List.forall₂_nil_right_iff.mp hbody
    rw [requestBranches_of_bare hbare, List.mem_singleton] at hbranch
    rw [hbranch]
    exact branchDeclares_requestBase hall hkeys hmedia
  · have hmedia : bodyMedia declaration ≠ [] := by
      intro hnone
      rw [hnone] at hbody
      exact hbare (List.forall₂_nil_left_iff.mp hbody)
    cases body with
    | none => exact absurd rfl hbare
    | some body =>
        rw [requestBranches_of_content hbare] at hbranch
        obtain ⟨variant, -, rfl⟩ := List.mem_map.mp hbranch
        exact branchDeclares_withContent hall hkeys hmedia body.required variant

/-! ## The schema of an operation -/

variable {collection : Collection} {document key method : Value} {node : Node}

/-- What is declared as a parameter is found in every branch of the request, and nothing else is. -/
theorem operationSchema_declaresParameters
    (hbuilt : (operationSchema collection document key method).outcome = .ok node)
    (hfound : operation collection document key method = .ok (pathItem, declaration))
    (hpath : DistinctParameters (declarations (memberIn pathItem "parameters")))
    (hoperation : DistinctParameters (declarations (memberIn declaration "parameters"))) :
    DeclaresParameters pathItem declaration node := by
  obtain ⟨_, _, hother, parameters, body, responses, hreads, rfl⟩ :=
    exists_reads_of_operationSchema hbuilt
  obtain ⟨rfl, rfl⟩ := Prod.mk.inj (Except.ok.inj (hfound.symm.trans hother))
  refine ⟨requestBranches parameters body, _, rfl, ?_⟩
  intro branch hbranch
  exact branchDeclares_of_mem_requestBranches hreads.readsParameters
    (hreads.nodup_key hpath hoperation) hreads.body hbranch

theorem petUpdate_declaresParameters :
    ∃ node,
      (operationSchema .paths petDocument (.str "/pets/id") (.str "put")).outcome = .ok node ∧
        DeclaresParameters (petItem petUpdate) petUpdate node := by
  obtain ⟨node, hbuilt⟩ := petUpdate_built
  have hpath : DistinctParameters (declarations (memberIn (petItem petUpdate) "parameters")) := by
    simp [DistinctParameters, petItem, declarations, declaredKey, memberIn, entriesIn,
      Value.asMap?, Entries.fieldD, Entries.field?, Entries.get?]
  have hoperation : DistinctParameters (declarations (memberIn petUpdate "parameters")) := by
    simp [DistinctParameters, petUpdate, declarations, declaredKey, memberIn, entriesIn,
      Value.asMap?, Entries.fieldD, Entries.field?, Entries.get?]
  exact ⟨node, hbuilt,
    operationSchema_declaresParameters hbuilt petUpdate_found hpath hoperation⟩

end ApiContract.Schema
