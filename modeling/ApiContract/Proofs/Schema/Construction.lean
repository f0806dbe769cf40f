import ApiContract.Proofs.Schema.ContentBranch
import ApiContract.Proofs.Schema.DeclaredOperation
import ApiContract.Proofs.Schema.Unambiguous
import ApiContract.Schema.Component

/-!
# What holds of everything that is built

The builders put schemas of the description into schemas of their own, and they do so in few ways: a
property is named, a named property is required, objects are put into a choice or into a record.  A
property of nodes that these steps keep holds of all branches of a request and of a response, by
induction over the parameters, the headers and the variants that they are built from.
-/

namespace ApiContract.Schema

/-- A property of nodes that the steps of the builders keep.  `reads` is what is known of the values
that they read and passes to parts, `names` is what is known of the keys. -/
structure BuildInvariant (reads names : Value → Prop) (holds : Node → Prop) : Prop where
  inherited : Inherited reads
  key {v : Value} {entry : Value × Value} (hv : reads v) (hentry : entry ∈ entriesIn v) :
    names entry.1
  text (s : String) : names (.str s)
  given {v : Value} (hv : reads v) : holds (.given v)
  derived {declaration field v : Value} (hdeclaration : reads declaration)
    (hread : deriveSchema declaration field = .ok v) : holds (.given v)
  pinned (s : String) : holds (.pinned (.str s))
  closed : holds (.object .closed)
  unrestricted : holds (.object .unrestricted)
  set {o : ObjectNode Node} {name : String} {node : Node} (ho : holds (.object o))
    (hnode : holds node) : holds (.object (o.set (.str name) node))
  require {o : ObjectNode Node} {name : String} (ho : holds (.object o))
    (hname : .str name ∈ Entries.keys o.properties) : holds (.object (o.require (.str name)))
  property {o : ObjectNode Node} {entry : Value × Node} (ho : holds (.object o))
    (hentry : entry ∈ o.properties) : holds entry.2
  choice {branches : List (ObjectNode Node)} (hbranches : ∀ b ∈ branches, holds (.object b)) :
    holds (choice branches)
  record {es : Entries Node} (hkeys : es.KeysDiffer) (hes : ∀ e ∈ es, names e.1 ∧ holds e.2) :
    holds (.object (record es))
  kind {members : Entries Node} (hmembers : ∀ e ∈ members, names e.1 ∧ holds e.2) :
    holds (.object (kindNode members))

theorem mem_keys_set_self {o : ObjectNode Node} {name : String} {node : Node} :
    .str name ∈ Entries.keys (o.set (.str name) node).properties :=
  Entries.mem_keys_insert_iff.mpr (Or.inr rfl)

namespace BuildInvariant

variable {reads names : Value → Prop} {holds : Node → Prop}
  (invariant : BuildInvariant reads names holds)

include invariant

/-! ## Messages -/

section Objects

variable {o : ObjectNode Node} {name : String} {node : Node}

theorem set_require (ho : holds (.object o)) (hnode : holds node) :
    holds (.object ((o.set (.str name) node).require (.str name))) :=
  invariant.require (invariant.set ho hnode) mem_keys_set_self

/-- A step that names a property and may require it. -/
theorem set_require_if {requires : Prop} [Decidable requires] (ho : holds (.object o))
    (hnode : holds node) :
    holds (.object (if requires then (o.set (.str name) node).require (.str name)
      else o.set (.str name) node)) := by
  split
  · exact invariant.set_require ho hnode
  · exact invariant.set ho hnode

theorem headersOf (ho : holds (.object o)) : holds (.object (headersOf o)) := by
  unfold Schema.headersOf
  cases hfound : (o.property? "headers").bind Node.asObject? with
  | none => exact invariant.unrestricted
  | some headers =>
      obtain ⟨node, hnode, hobject⟩ := Option.bind_eq_some_iff.mp hfound
      cases node with
      | object inner =>
          cases hobject
          exact invariant.property ho (Entries.mem_of_field? hnode)
      | _ => cases hobject

theorem withContent {required : Bool} {variant : ContentVariant} (ho : holds (.object o))
    (hvariant : holds (.given variant.schema)) :
    holds (.object (withContent o required variant)) := by
  have hheaders : holds (.object (pinnedHeaders (Schema.headersOf o) required
      variant.contentType)) :=
    invariant.set_require_if (invariant.headersOf ho) (invariant.pinned variant.contentType)
  have hcarrying : holds (.object (carrying o required variant)) :=
    invariant.set (invariant.set ho hheaders) hvariant
  rw [withContent_eq]
  split
  · have hnamed : .str "headers" ∈ Entries.keys (carrying o required variant).properties :=
      Entries.mem_keys_insert_iff.mpr (Or.inl mem_keys_set_self)
    have hbody : .str "body" ∈ Entries.keys
        ((carrying o required variant).require (.str "headers")).properties := by
      rw [ObjectNode.properties_require]
      exact mem_keys_set_self
    exact invariant.require (invariant.require hcarrying hnamed) hbody
  · exact hcarrying

end Objects

section Request

variable {parameters : List Parameter} (hparameters : ∀ p ∈ parameters, holds (.given p.schema))

include hparameters

theorem bucket (location : ParameterLocation) : holds (.object (bucket parameters location)) := by
  unfold Schema.bucket
  refine List.foldlRecOn (motive := fun o => holds (.object o)) _ addParameter ?_
    fun o ho p hp => ?_
  · split
    · exact invariant.closed
    · exact invariant.unrestricted
  · exact invariant.set_require_if ho (hparameters p (List.mem_filter.mp hp).1)

theorem requestBase : holds (.object (requestBase parameters)) := by
  refine List.foldlRecOn (motive := fun o => holds (.object o)) _ (addBucket parameters)
    invariant.closed fun o ho location _ => ?_
  have hbucket := invariant.bucket hparameters location
  unfold addBucket
  dsimp only
  split
  · exact invariant.set ho hbucket
  · exact invariant.set_require ho hbucket

theorem requestBranches {body : Option Body}
    (hbody : ∀ variant ∈ bodyVariants body, holds (.given variant.schema)) :
    ∀ branch ∈ requestBranches parameters body, holds (.object branch) := by
  have hbase := invariant.requestBase hparameters
  intro branch hbranch
  by_cases hbare : bodyVariants body = []
  · rw [requestBranches_of_bare hbare, List.mem_singleton] at hbranch
    exact hbranch ▸ hbase
  · cases body with
    | none => exact absurd rfl hbare
    | some body =>
        rw [requestBranches_of_content hbare] at hbranch
        obtain ⟨variant, hvariant, rfl⟩ := List.mem_map.mp hbranch
        exact invariant.withContent hbase (hbody variant hvariant)

end Request

section Response

variable {r : Response} {includeStatus : Bool} (hheaders : ∀ h ∈ r.headers, holds (.given h.schema))

include hheaders

theorem responseBase : holds (.object (responseBase r includeStatus)) := by
  have hbucket : holds (.object (r.headers.foldl addHeader .unrestricted)) :=
    List.foldlRecOn (motive := fun o => holds (.object o)) _ addHeader invariant.unrestricted
      fun o ho h hh => invariant.set_require_if ho (hheaders h hh)
  unfold Schema.responseBase
  dsimp only
  -- The status comes first; the headers are added to whatever there is.
  have hheaded : ∀ base, holds (.object base) → holds (.object (if r.headers.isEmpty then base
      else (base.set (.str "headers") (.object (r.headers.foldl addHeader .unrestricted))).require
        (.str "headers"))) := by
    intro base hbase
    split
    · exact hbase
    · exact invariant.set_require hbase hbucket
  refine hheaded _ ?_
  split
  · split
    · exact invariant.set_require invariant.closed (invariant.pinned _)
    · exact invariant.closed
  · exact invariant.closed

theorem responseBranches (hvariants : ∀ variant ∈ r.variants, holds (.given variant.schema)) :
    ∀ branch ∈ responseBranches r includeStatus, holds (.object branch) := by
  have hbase : holds (.object (Schema.responseBase r includeStatus)) :=
    invariant.responseBase hheaders
  intro branch hbranch
  unfold Schema.responseBranches at hbranch
  split at hbranch
  · rename_i first rest hcontent
    obtain ⟨variant, hvariant, rfl⟩ := List.mem_map.mp hbranch
    exact invariant.withContent hbase
      (hvariants variant (by rw [Response.variants, hcontent]; exact hvariant))
  · rw [List.mem_singleton.mp hbranch]
    exact hbase

end Response

/-! ## Declarations -/

section Declarations

variable {v declaration : Value}

theorem parameters {ps : List Parameter} (hv : reads v)
    (hreads : List.Forall₂ ReadsParameter (declarations v) ps) :
    ∀ p ∈ ps, holds (.given p.schema) := by
  intro p hp
  obtain ⟨declaration, hdeclared, hread⟩ := exists_of_mem_right hreads hp
  exact invariant.derived (invariant.inherited.of_mem_declarations hv hdeclared) hread.schema

theorem headers {hs : List Header} (hv : reads v)
    (hreads : List.Forall₂ ReadsHeader (declaredHeaders v) hs) :
    ∀ h ∈ hs, holds (.given h.schema) := by
  intro h hh
  obtain ⟨entry, hentry, hread⟩ := exists_of_mem_right hreads hh
  have hheaders : reads (memberIn v "headers") := invariant.inherited.memberIn hv
  exact invariant.derived
    (invariant.inherited.of_mem_entriesIn hheaders (List.mem_filter.mp hentry).1) hread.schema

theorem media {variants : List ContentVariant} (hv : reads v)
    (hreads : List.Forall₂ ReadsVariant (declaredMedia v) variants) :
    ∀ variant ∈ variants, holds (.given variant.schema) := by
  intro variant hvariant
  obtain ⟨entry, hentry, hread⟩ := exists_of_mem_right hreads hvariant
  obtain ⟨media, hmedia, hschema⟩ := List.mem_filterMap.mp hentry
  obtain ⟨schema, hfield, rfl⟩ := Option.map_eq_some_iff.mp hschema
  have hcontent : reads (memberIn v "content") := invariant.inherited.memberIn hv
  have hschema := invariant.inherited.of_mem_entriesIn
    (invariant.inherited.of_mem_entriesIn hcontent hmedia) (Entries.mem_of_field? hfield)
  rw [← hread.schema]
  exact invariant.given hschema

/-- The branches of a response that is read from a declaration. -/
theorem branches_of_resolveResponse {status : Value} {r : Response} {includeStatus : Bool}
    (hdeclaration : reads declaration) (hread : resolveResponse status declaration = .ok r) :
    ∀ branch ∈ Schema.responseBranches r includeStatus, holds (.object branch) := by
  obtain ⟨-, hheaders, hvariants⟩ := reads_of_resolveResponse hread
  exact invariant.responseBranches (invariant.headers hdeclaration hheaders)
    (invariant.media hdeclaration hvariants)

end Declarations

end BuildInvariant

end ApiContract.Schema
