import ApiContract.Proofs.Schema.ComponentTable
import ApiContract.Proofs.Schema.Construction

/-!
# What holds of everything in the roots

A path item is a record of its operations, a tree is a record of its path items, and the component
schema is a record of its kinds.  Each of them grows by one required property at a time, so what
holds of every property that is added holds of the whole.  With that a property that the builders
keep is followed from the operations and the components up to the roots.
-/

namespace ApiContract.Schema

variable {document key : Value} {collection : Collection}

/-! ## Records that grow -/

section Records

variable (names : Value → Prop) {values : Node → Prop} {es : Entries Node} {node : Node}

/-- A record with one more required property is a record. -/
theorem record_set_require (es : Entries Node) (key : Value) (node : Node) :
    ((record es).set key node).require key = record (Entries.insert es key node) := by
  have hrequired : (record es).required.any (·.same key) = Entries.has es key :=
    Entries.any_keys_eq_has es key
  unfold ObjectNode.require
  rw [ObjectNode.required_set, hrequired]
  -- The names and the required names are the same keys, so both grow or neither does.
  cases hhas : Entries.has es key with
  | true =>
      have hkeys : (Entries.insert es key node).map (·.1) = es.map (·.1) :=
        Entries.keys_insert_of_has node hhas
      simp [ObjectNode.set, record, hkeys]
  | false =>
      rw [if_neg Bool.false_ne_true, Entries.insert_of_not_has node hhas]
      simp [ObjectNode.set, record, Entries.insert_of_not_has node hhas]

/-- Different keys with `names`, and nodes with `values` under them. -/
structure Lists (names : Value → Prop) (values : Node → Prop) (es : Entries Node) : Prop where
  keys : es.KeysDiffer
  entries : ∀ e ∈ es, names e.1 ∧ values e.2

variable {names} in
theorem lists_nil : Lists names values [] := ⟨List.Pairwise.nil, by simp⟩

variable {names} in
theorem Lists.insert (hes : Lists names values es) (hkey : names key) (hnode : values node) :
    Lists names values (Entries.insert es key node) where
  keys := hes.keys.insert key node
  entries e he := by
    rcases Entries.mem_of_mem_insert he with hold | ⟨rfl, rfl | hold⟩
    · exact hes.entries e hold
    · exact ⟨hkey, hnode⟩
    · obtain ⟨other, hother, heq⟩ := List.mem_map.mp hold
      exact ⟨heq ▸ (hes.entries other hother).1, hnode⟩

theorem exists_record_of_addOperations {methods : List String} {item : ObjectNode Node}
    (hes : Lists names values es) (htext : ∀ s, names (.str s))
    (hvalues : ∀ method node, (operationSchema collection document key method).outcome = .ok node →
      values node)
    (hbuilt : (addOperations collection document key (record es) methods).outcome = .ok item) :
    ∃ all, item = record all ∧ Lists names values all := by
  induction methods generalizing es with
  | nil =>
      cases hbuilt
      exact ⟨es, rfl, hes⟩
  | cons method rest ih =>
      rw [addOperations, Traced.outcome_bind] at hbuilt
      obtain ⟨schema, hschema, hbuilt⟩ := bind_eq_ok_iff.mp hbuilt
      rw [record_set_require] at hbuilt
      exact ih (hes.insert (htext method) (hvalues _ schema hschema)) hbuilt

/-- A path item is a record of its operations. -/
theorem exists_record_of_itemSchema {item : ObjectNode Node} (htext : ∀ s, names (.str s))
    (hvalues : ∀ method node, (operationSchema collection document key method).outcome = .ok node →
      values node)
    (hbuilt : (itemSchema collection document key).outcome = .ok item) :
    ∃ all, item = record all ∧ Lists names values all := by
  unfold itemSchema at hbuilt
  split at hbuilt
  · simp [bind_eq_ok_iff] at hbuilt
  · simp only [Traced.outcome_bind, Traced.outcome_lift, bind_eq_ok_iff] at hbuilt
    obtain ⟨_, -, _, -, hbuilt⟩ := hbuilt
    exact exists_record_of_addOperations names lists_nil htext hvalues hbuilt

theorem exists_record_of_addItems {listed : Entries} {members : ObjectNode Node}
    (hes : Lists names values es) (hlisted : ∀ entry ∈ listed, names entry.1)
    (hvalues : ∀ key item, (itemSchema collection document key).outcome = .ok item →
      values (.object item))
    (hbuilt : (addItems collection document (record es) listed).outcome = .ok members) :
    ∃ all, members = record all ∧ Lists names values all := by
  induction listed generalizing es with
  | nil =>
      cases hbuilt
      exact ⟨es, rfl, hes⟩
  | cons entry rest ih =>
      rw [addItems, Traced.outcome_bind] at hbuilt
      obtain ⟨item, hitem, hbuilt⟩ := bind_eq_ok_iff.mp hbuilt
      rw [record_set_require] at hbuilt
      exact ih (hes.insert (hlisted entry List.mem_cons_self) (hvalues _ item hitem))
        (fun other hother => hlisted other (List.mem_cons_of_mem _ hother)) hbuilt

/-- A tree is a record of its path items beside the component table. -/
theorem exists_record_of_buildTree {tree : Tree}
    (hnames : ∀ entry ∈ entriesIn (memberIn document collection.field), names entry.1)
    (hvalues : ∀ key item, (itemSchema collection document key).outcome = .ok item →
      values (.object item))
    (hbuilt : (buildTree collection document).outcome = .ok tree) :
    (∃ all, tree.members = record all ∧ Lists names values all) ∧
      (componentsToken document).outcome = .ok tree.components := by
  obtain ⟨htoken, declared, -, ⟨-, hclosed⟩ | ⟨listed, hlisted, hmembers⟩⟩ :=
    cases_of_buildTree hbuilt
  · exact ⟨⟨[], hclosed, lists_nil⟩, htoken⟩
  · exact ⟨exists_record_of_addItems names lists_nil
      (fun entry hentry => hnames entry (mem_of_items hlisted hentry)) hvalues hmembers, htoken⟩

/-- The component schema is a record of its kinds. -/
theorem exists_record_of_componentsNode {token : Token} (htext : ∀ s, names (.str s))
    (hvalues : ∀ entry ∈ token, values (.object (kindNode entry.2))) :
    ∃ all, componentsNode token = record all ∧ Lists names values all := by
  refine List.foldlRecOn (motive := fun o => ∃ all, o = record all ∧ Lists names values all)
    token _ ⟨[], rfl, lists_nil⟩ fun root hbefore entry hentry => ?_
  obtain ⟨es, rfl, hes⟩ := hbefore
  exact ⟨_, record_set_require _ _ _, hes.insert (htext _) (hvalues entry hentry)⟩

end Records

/-! ## The nodes of the roots -/

/-- The nodes in the table of a description. -/
def Token.nodes (token : Token) : List Node :=
  token.flatMap fun entry => entry.2.map (·.2)

/-- The nodes that root schemas consist of: both trees with their tables, and the components. -/
def Roots.nodes (roots : Roots) : List Node :=
  .object roots.paths.members :: .object roots.webhooks.members :: .object roots.components ::
    (roots.paths.components.nodes ++ roots.webhooks.components.nodes)

namespace BuildInvariant

variable {reads names : Value → Prop} {holds : Node → Prop}
  (invariant : BuildInvariant reads names holds)

include invariant

theorem operationNode {shape : OperationShape} (hrequest : holds shape.request)
    (hresponses : holds shape.responses) : holds shape.node := by
  rw [OperationShape.node]
  refine invariant.require (invariant.require
    (invariant.set (invariant.set invariant.closed hrequest) hresponses) ?_) ?_
  · exact Entries.mem_keys_insert_iff.mpr (Or.inl mem_keys_set_self)
  · rw [ObjectNode.properties_require]
    exact mem_keys_set_self

theorem operationOf {pathItem declaration : Value} {parameters : List Parameter}
    {body : Option Body} {responses : List Response} (hpathItem : reads pathItem)
    (hdeclaration : reads declaration)
    (hreads : ReadsOperation pathItem declaration parameters body responses) :
    holds (OperationShape.node ⟨Schema.choice (Schema.requestBranches parameters body),
      Schema.choice (responses.flatMap (Schema.responseBranches · true))⟩) := by
  have hparameters : ∀ p ∈ parameters, holds (.given p.schema) := by
    obtain ⟨ops, paths, hops, hpaths, rfl⟩ := hreads.parameters
    intro p hp
    rcases List.mem_append.mp hp with hop | hpath
    · exact invariant.parameters (invariant.inherited.memberIn hdeclaration) hops p hop
    · exact invariant.parameters (invariant.inherited.memberIn hpathItem) hpaths p
        (List.mem_filter.mp hpath).1
  have hbody : ∀ variant ∈ bodyVariants body, holds (.given variant.schema) :=
    invariant.media (invariant.inherited.memberIn hdeclaration) hreads.body
  have hresponses : ∀ branch ∈ responses.flatMap (Schema.responseBranches · true),
      holds (.object branch) := by
    intro branch hbranch
    obtain ⟨r, hr, hbranch⟩ := List.mem_flatMap.mp hbranch
    obtain ⟨entry, hentry, hread⟩ := exists_of_mem_right hreads.responses hr
    have hdeclared : reads (memberIn declaration "responses") :=
      invariant.inherited.memberIn hdeclaration
    have hresponse := invariant.inherited.of_mem_entriesIn hdeclared (List.mem_filter.mp hentry).1
    exact invariant.responseBranches (invariant.headers hresponse hread.headers)
      (invariant.media hresponse hread.variants) branch hbranch
  exact invariant.operationNode
    (invariant.choice (invariant.requestBranches hparameters hbody)) (invariant.choice hresponses)

theorem memberOf {v member : Value} (hv : reads v) (hread : memberOf v key = .ok member) :
    reads member := by
  obtain ⟨entries, hentries, hfound⟩ := bind_eq_ok_iff.mp hread
  obtain rfl := entriesOf_eq_ok_iff.mp hentries
  split at hfound
  · cases hfound
    cases hget : Entries.get? entries key with
    | none => exact invariant.inherited.null
    | some found =>
        obtain ⟨entry, hfind, rfl⟩ := Option.map_eq_some_iff.mp hget
        exact invariant.inherited.member hv (List.mem_of_find?_eq_some hfind)
  · cases hfound

variable (hdocument : reads document)

include hdocument

theorem operationSchema {method : Value} {node : Node}
    (hbuilt : (operationSchema collection document key method).outcome = .ok node) :
    holds node := by
  obtain ⟨pathItem, declaration, hfound, parameters, body, responses, hreads, rfl⟩ :=
    exists_reads_of_operationSchema hbuilt
  obtain ⟨-, hitem, hmember, -⟩ := operation_eq_ok_iff.mp hfound
  obtain ⟨-, -, declared, hdeclared, -, hread, -⟩ := item_eq_ok_iff.mp hitem
  obtain rfl := collectionOf_eq_memberIn hdeclared
  have hpathItem := invariant.memberOf (invariant.inherited.memberIn hdocument) hread
  exact invariant.operationOf hpathItem (invariant.memberOf hpathItem hmember) hreads

theorem itemSchema {item : ObjectNode Node}
    (hbuilt : (itemSchema collection document key).outcome = .ok item) : holds (.object item) := by
  obtain ⟨all, rfl, hall⟩ := exists_record_of_itemSchema names invariant.text
    (fun _ _ hnode => invariant.operationSchema hdocument hnode) hbuilt
  exact invariant.record hall.keys hall.entries

/-- Both the members of a tree and its table. -/
theorem buildTree {tree : Tree} (hbuilt : (buildTree collection document).outcome = .ok tree) :
    holds (.object tree.members) ∧ (componentsToken document).outcome = .ok tree.components := by
  have hnames : ∀ entry ∈ entriesIn (memberIn document collection.field), names entry.1 :=
    fun entry => invariant.key (invariant.inherited.memberIn hdocument)
  obtain ⟨⟨all, hmembers, hall⟩, htoken⟩ := exists_record_of_buildTree names hnames
    (fun _ _ hitem => invariant.itemSchema hdocument hitem) hbuilt
  refine ⟨?_, htoken⟩
  rw [hmembers]
  exact invariant.record hall.keys hall.entries

omit hdocument in
theorem componentNode {kind : ComponentKind} {name declaration : Value} {node : Node}
    (hdeclaration : reads declaration) (hbuilt : componentNode kind name declaration = .ok node) :
    holds node := by
  cases kind with
  | schemas =>
      cases hbuilt
      exact invariant.given hdeclaration
  | responses =>
      rw [Schema.componentNode] at hbuilt
      split at hbuilt
      · cases hbuilt
      · obtain ⟨r, hread, rfl⟩ := map_eq_ok_iff.mp hbuilt
        exact invariant.choice (invariant.branches_of_resolveResponse hdeclaration hread)
  | parameters =>
      obtain ⟨p, hread, rfl⟩ := map_eq_ok_iff.mp hbuilt
      exact invariant.derived hdeclaration (readsParameter_of_resolveParameter hread).schema
  | requestBodies =>
      rw [Schema.componentNode] at hbuilt
      split at hbuilt
      · cases hbuilt
      · obtain ⟨body, hread, rfl⟩ := map_eq_ok_iff.mp hbuilt
        have hvariants := invariant.media hdeclaration (readsVariants_of_resolveBody hread)
        have hbase : holds (.object bodyBase) :=
          invariant.set invariant.closed invariant.unrestricted
        cases body with
        | none => exact invariant.choice (by simpa using hbase)
        | some body =>
            refine invariant.choice fun branch hbranch => ?_
            obtain ⟨variant, hvariant, rfl⟩ := List.mem_map.mp hbranch
            exact invariant.withContent hbase (hvariants variant hvariant)
  | headers =>
      obtain ⟨h, hread, rfl⟩ := map_eq_ok_iff.mp hbuilt
      exact invariant.derived hdeclaration (readsHeader_of_resolveHeader hread).schema

/-- Every member in the table of a description. -/
theorem componentsToken {token : Token}
    (hbuilt : (componentsToken document).outcome = .ok token) :
    ∀ entry ∈ token, ∀ member ∈ entry.2, names member.1 ∧ holds member.2 := by
  obtain ⟨es, entries, rfl, hentries, htoken⟩ := componentsToken_eq_ok_iff.mp hbuilt
  obtain rfl := entriesIn_of_entriesIfAny hentries
  intro entry hentry member hmember
  obtain ⟨declared, hdeclared, hreads⟩ := exists_declared_of_mem_token htoken hentry
  have hcomponents : reads (memberIn (.map es) "components") :=
    invariant.inherited.memberIn hdocument
  have hmembers := invariant.inherited.of_mem_entriesIn hcomponents hdeclared
  obtain ⟨source, hsource, hkey, hnode⟩ := exists_of_mem_right hreads hmember
  exact ⟨hkey ▸ invariant.key (v := .map declared) hmembers hsource,
    invariant.componentNode (invariant.inherited.member hmembers hsource) hnode⟩

/-- Every node that the roots consist of. -/
theorem buildRoots {roots : Roots} (hbuilt : (buildRoots document).outcome = .ok roots) :
    ∀ node ∈ roots.nodes, holds node := by
  simp only [Schema.buildRoots, Traced.outcome_bind, Traced.outcome_pure, bind_eq_ok_iff] at hbuilt
  obtain ⟨paths, hpaths, webhooks, hwebhooks, token, htoken, hbuilt⟩ := hbuilt
  cases hbuilt
  obtain ⟨hpaths, hpathsToken⟩ := invariant.buildTree hdocument hpaths
  obtain ⟨hwebhooks, hwebhooksToken⟩ := invariant.buildTree hdocument hwebhooks
  have hkinds := invariant.componentsToken hdocument htoken
  have hnodes : ∀ token, (Schema.componentsToken document).outcome = .ok token →
      ∀ node ∈ token.nodes, holds node := by
    intro token htoken node hnode
    obtain ⟨entry, hentry, hnode⟩ := List.mem_flatMap.mp hnode
    obtain ⟨member, hmember, rfl⟩ := List.mem_map.mp hnode
    exact (invariant.componentsToken hdocument htoken entry hentry member hmember).2
  obtain ⟨all, hcomponents, hall⟩ := exists_record_of_componentsNode names invariant.text
    fun entry hentry => invariant.kind (hkinds entry hentry)
  rw [Roots.nodes]
  simp only [List.forall_mem_cons, List.forall_mem_append]
  refine ⟨hpaths, hwebhooks, ?_, hnodes _ hpathsToken, hnodes _ hwebhooksToken⟩
  rw [hcomponents]
  exact invariant.record hall.keys hall.entries

end BuildInvariant

end ApiContract.Schema
