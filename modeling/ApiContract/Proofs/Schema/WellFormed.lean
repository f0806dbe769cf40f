import ApiContract.Proofs.Schema.RootConstruction

/-!
# Object schemas are well formed

The names that an object schema requires are collected apart from its properties, and both grow in
many places.  Everywhere in the roots the required names differ from each other and are names of
properties.  Trees, path items, operations, the component schema and its kinds require all of their
properties, in order.
-/

namespace ApiContract.Schema

/-- The required names differ, and each of them is the name of a property. -/
structure ObjectNode.IsWellFormed (o : ObjectNode Node) : Prop where
  differ : o.required.Pairwise fun left right => left.same right = false
  named : ∀ name ∈ o.required, name ∈ Entries.keys o.properties

namespace Node

/-- The object schemas that occur in a node. -/
inductive Contains : Node → ObjectNode Node → Prop
  | self (o : ObjectNode Node) : Contains (.object o) o
  | property {o inner : ObjectNode Node} {entry : Value × Node} (hentry : entry ∈ o.properties)
      (hinner : Contains entry.2 inner) : Contains (.object o) inner
  | branch {branches : List Node} {node : Node} {inner : ObjectNode Node}
      (hnode : node ∈ branches) (hinner : Contains node inner) : Contains (.oneOf branches) inner

/-- Every object schema in a node is well formed. -/
def IsWellFormed (node : Node) : Prop :=
  ∀ o, node.Contains o → o.IsWellFormed

/-- An object schema that requires all of its properties, in order, as do the schemas of its
properties down to a depth. -/
def RequiresAllTo : Nat → Node → Prop
  | 0, _ => True
  | depth + 1, node => ∃ o, node = .object o ∧ o.required = Entries.keys o.properties ∧
      ∀ entry ∈ o.properties, entry.2.RequiresAllTo depth

end Node

/-- Every object schema in the roots is well formed; those down to the operations and down to the
kinds of components require all of their properties. -/
structure Roots.IsWellFormed (roots : Roots) : Prop where
  objects : ∀ node ∈ roots.nodes, node.IsWellFormed
  paths : (Node.object roots.paths.members).RequiresAllTo 3
  webhooks : (Node.object roots.webhooks.members).RequiresAllTo 3
  components : (Node.object roots.components).RequiresAllTo 2

variable {o : ObjectNode Node} {key : Value} {node : Node} {es : Entries Node}

/-! ## Well-formed nodes -/

theorem isWellFormed_object_iff :
    (Node.object o).IsWellFormed ↔
      o.IsWellFormed ∧ ∀ entry ∈ o.properties, entry.2.IsWellFormed := by
  constructor
  · intro hobject
    exact ⟨hobject o (.self o), fun entry hentry inner hinner =>
      hobject inner (.property hentry hinner)⟩
  · rintro ⟨ho, hproperties⟩ inner hinner
    cases hinner with
    | self => exact ho
    | property hentry hinner => exact hproperties _ hentry _ hinner

theorem isWellFormed_choice {branches : List (ObjectNode Node)}
    (hbranches : ∀ branch ∈ branches, (Node.object branch).IsWellFormed) :
    (choice branches).IsWellFormed := by
  intro inner hinner
  cases hinner with
  | branch hnode hinner =>
      obtain ⟨branch, hbranch, rfl⟩ := List.mem_map.mp hnode
      exact hbranches branch hbranch inner hinner

namespace ObjectNode.IsWellFormed

theorem set (ho : o.IsWellFormed) (name : String) (node : Node) :
    (o.set (.str name) node).IsWellFormed where
  differ := ho.differ
  named other hother := Entries.mem_keys_insert_iff.mpr (Or.inl (ho.named other hother))

theorem require (ho : o.IsWellFormed) (hkey : key ∈ Entries.keys o.properties) :
    (o.require key).IsWellFormed := by
  unfold ObjectNode.require
  split
  · exact ho
  · rename_i hfresh
    rw [Bool.not_eq_true, List.any_eq_false] at hfresh
    constructor
    · refine List.pairwise_append.mpr ⟨ho.differ, List.pairwise_singleton _ _, ?_⟩
      intro other hother last hlast
      rw [List.mem_singleton.mp hlast]
      exact Bool.eq_false_iff.mpr (hfresh other hother)
    · intro name hname
      rcases List.mem_append.mp hname with hold | hnew
      · exact ho.named name hold
      · rw [List.mem_singleton.mp hnew]
        exact hkey

theorem record (hkeys : es.KeysDiffer) : (Schema.record es).IsWellFormed where
  differ := hkeys
  named _ hname := hname

/-- A kind of components is well formed even where a name is repeated. -/
theorem kindNode (members : Entries Node) : (Schema.kindNode members).IsWellFormed := by
  -- All names are properties before the first is required, and no step changes the properties.
  have hgrown : (Schema.kindNode members).IsWellFormed ∧
      (Schema.kindNode members).properties = members := by
    refine List.foldlRecOn (motive := fun o : ObjectNode Node => o.IsWellFormed ∧
      o.properties = members) (Entries.keys members) ObjectNode.require
      ⟨⟨List.Pairwise.nil, nofun⟩, rfl⟩ ?_
    rintro o ⟨ho, hproperties⟩ name hname
    refine ⟨ho.require (hproperties ▸ hname), ?_⟩
    rw [properties_require, hproperties]
  exact hgrown.1

end ObjectNode.IsWellFormed

/-- What is built is well formed, whatever the description is. -/
theorem buildInvariant_isWellFormed :
    BuildInvariant (fun _ => True) (fun _ => True) Node.IsWellFormed where
  inherited := ⟨trivial, fun _ _ => trivial, fun _ _ => trivial, fun _ => trivial, fun _ => trivial⟩
  key _ _ := trivial
  text _ := trivial
  given _ := nofun
  derived _ _ := nofun
  pinned _ := nofun
  closed := isWellFormed_object_iff.mpr ⟨.record List.Pairwise.nil, nofun⟩
  unrestricted := isWellFormed_object_iff.mpr ⟨⟨List.Pairwise.nil, nofun⟩, nofun⟩
  set ho hnode := by
    obtain ⟨ho, hproperties⟩ := isWellFormed_object_iff.mp ho
    refine isWellFormed_object_iff.mpr ⟨ho.set _ _, fun entry hentry => ?_⟩
    rcases Entries.mem_of_mem_insert hentry with hold | ⟨rfl, -⟩
    · exact hproperties entry hold
    · exact hnode
  require ho hname := by
    obtain ⟨ho, hproperties⟩ := isWellFormed_object_iff.mp ho
    refine isWellFormed_object_iff.mpr ⟨ho.require hname, ?_⟩
    rw [ObjectNode.properties_require]
    exact hproperties
  property ho hentry := (isWellFormed_object_iff.mp ho).2 _ hentry
  choice := isWellFormed_choice
  record hkeys hes := isWellFormed_object_iff.mpr ⟨.record hkeys, fun e he => (hes e he).2⟩
  kind hmembers := by
    refine isWellFormed_object_iff.mpr ⟨.kindNode _, ?_⟩
    rw [kindNode, ObjectNode.properties_requireAll]
    exact fun e he => (hmembers e he).2

/-! ## Objects that require all of their properties -/

theorem requiresAllTo_record {depth : Nat} (hes : ∀ e ∈ es, e.2.RequiresAllTo depth) :
    (Node.object (record es)).RequiresAllTo (depth + 1) :=
  ⟨record es, rfl, rfl, hes⟩

theorem requiresAllTo_one_record (es : Entries Node) : (Node.object (record es)).RequiresAllTo 1 :=
  requiresAllTo_record fun _ _ => trivial

/-- The names of a kind are required as they stand if they differ. -/
theorem requireAll_of_pairwise {names : List Value}
    (hdiffer : (o.required ++ names).Pairwise fun left right => left.same right = false) :
    o.requireAll names = { o with required := o.required ++ names } := by
  induction names generalizing o with
  | nil => simp [ObjectNode.requireAll]
  | cons name rest ih =>
      have hfresh : o.required.any (·.same name) = false := by
        rw [List.any_eq_false]
        intro other hother
        exact Bool.eq_false_iff.mp ((List.pairwise_append.mp hdiffer).2.2 other hother name
          List.mem_cons_self)
      have hstep : o.require name = { o with required := o.required ++ [name] } := by
        rw [ObjectNode.require, hfresh, if_neg Bool.false_ne_true]
      have hrest := ih (o := o.require name) (by rw [hstep]; simpa using hdiffer)
      rw [ObjectNode.requireAll, List.foldl_cons, ← ObjectNode.requireAll, hrest, hstep]
      simp

theorem kindNode_eq_record (hkeys : es.KeysDiffer) : kindNode es = record es :=
  requireAll_of_pairwise (o := ⟨es, [], .bool false⟩) hkeys

theorem operationNode_eq_record (shape : OperationShape) :
    shape.node =
      .object (record [(.str "request", shape.request), (.str "responses", shape.responses)]) := by
  simp [OperationShape.node, ObjectNode.requireAll, ObjectNode.require, ObjectNode.set,
    ObjectNode.closed, Entries.insert, record]

section Roots

variable {document : Value} {collection : Collection}

theorem requiresAllTo_of_operationSchema {method : Value}
    (hbuilt : (operationSchema collection document key method).outcome = .ok node) :
    node.RequiresAllTo 1 := by
  obtain ⟨-, _, _, shape, -, -, -, rfl⟩ := operationSchema_eq_ok_iff.mp hbuilt
  rw [operationNode_eq_record]
  exact requiresAllTo_one_record _

theorem requiresAllTo_of_itemSchema {item : ObjectNode Node}
    (hbuilt : (itemSchema collection document key).outcome = .ok item) :
    (Node.object item).RequiresAllTo 2 := by
  obtain ⟨all, rfl, hall⟩ := exists_record_of_itemSchema (fun _ => True)
    (fun _ => trivial) (fun _ _ hnode => requiresAllTo_of_operationSchema hnode) hbuilt
  exact requiresAllTo_record fun e he => (hall.entries e he).2

theorem requiresAllTo_of_buildTree {tree : Tree}
    (hbuilt : (buildTree collection document).outcome = .ok tree) :
    (Node.object tree.members).RequiresAllTo 3 := by
  obtain ⟨⟨all, hmembers, hall⟩, -⟩ := exists_record_of_buildTree (fun _ => True)
    (fun _ _ => trivial) (fun _ _ hitem => requiresAllTo_of_itemSchema hitem) hbuilt
  rw [hmembers]
  exact requiresAllTo_record fun e he => (hall.entries e he).2

/-- The names of the members of a kind differ as those that are declared do. -/
theorem keysDiffer_of_mem_token {token : Token} (hunambiguous : document.isUnambiguous = true)
    (hbuilt : (componentsToken document).outcome = .ok token) :
    ∀ entry ∈ token, Entries.KeysDiffer entry.2 := by
  obtain ⟨fields, entries, rfl, hentries, htoken⟩ := componentsToken_eq_ok_iff.mp hbuilt
  obtain rfl := entriesIn_of_entriesIfAny hentries
  intro entry hentry
  obtain ⟨declared, hdeclared, hreads⟩ := exists_declared_of_mem_token htoken hentry
  have hcomponents : (memberIn (.map fields) "components").isUnambiguous = true :=
    isUnambiguous_inherited.memberIn hunambiguous
  have hmembers := isUnambiguous_inherited.of_mem_entriesIn hcomponents hdeclared
  have hkeys : Entries.keys declared = Entries.keys entry.2 :=
    map_eq_map_of_forall₂ hreads fun _ _ hmember => hmember.1
  rw [Entries.KeysDiffer, ← hkeys]
  exact (Value.isUnambiguous_map_iff.mp hmembers).1

theorem requiresAllTo_componentsNode {token : Token}
    (hdiffer : ∀ entry ∈ token, Entries.KeysDiffer entry.2) :
    (Node.object (componentsNode token)).RequiresAllTo 2 := by
  have hkinds : ∀ entry ∈ token, (Node.object (kindNode entry.2)).RequiresAllTo 1 := by
    intro entry hentry
    rw [kindNode_eq_record (hdiffer entry hentry)]
    exact requiresAllTo_one_record _
  obtain ⟨all, hcomponents, hall⟩ :=
    exists_record_of_componentsNode (fun _ => True) (fun _ => trivial) hkinds
  rw [hcomponents]
  exact requiresAllTo_record fun e he => (hall.entries e he).2

/-- The roots of a description whose mappings declare no key twice are well formed. -/
theorem buildRoots_isWellFormed {roots : Roots} (hunambiguous : document.isUnambiguous = true)
    (hbuilt : (buildRoots document).outcome = .ok roots) : roots.IsWellFormed := by
  have hobjects := buildInvariant_isWellFormed.buildRoots trivial hbuilt
  simp only [buildRoots, Traced.outcome_bind, Traced.outcome_pure, bind_eq_ok_iff] at hbuilt
  obtain ⟨paths, hpaths, webhooks, hwebhooks, token, htoken, hbuilt⟩ := hbuilt
  cases hbuilt
  constructor
  · exact hobjects
  · exact requiresAllTo_of_buildTree hpaths
  · exact requiresAllTo_of_buildTree hwebhooks
  · exact requiresAllTo_componentsNode (keysDiffer_of_mem_token hunambiguous htoken)

end Roots

/-- A description with an operation and with components of which some have the same shape. -/
def petLibrary : Value :=
  .map [
    (.str "paths", .map [(.str "/pets/id", petItem petUpdate)]),
    (.str "components", .map [
      (.str "schemas", .map [(.str "Pet", .map [(.str "type", .str "object")])]),
      (.str "responses", .map [
        (.str "Missing", .map []),
        (.str "Found", .map [
          (.str "headers", .map [(.str "Content-Type", .map [(.str "schema", .map [])])]),
          (.str "content", .map [(.str "text/plain", .map [(.str "schema", .bool true)])])])]),
      (.str "requestBodies", .map [
        (.str "Upload", .map [(.str "required", .bool true),
          (.str "content", .map [(.str "text/plain", .map [(.str "schema", .bool true)])])])])])]

theorem petLibrary_isWellFormed :
    petLibrary.isUnambiguous = true ∧
      ∃ roots, (buildRoots petLibrary).outcome = .ok roots ∧ roots.IsWellFormed := by
  have hunambiguous : petLibrary.isUnambiguous = true := by decide +kernel
  have hbuilds : (buildRoots petLibrary).outcome.isOk = true := by decide +kernel
  cases hroots : (buildRoots petLibrary).outcome with
  | ok roots => exact ⟨hunambiguous, roots, rfl, buildRoots_isWellFormed hunambiguous hroots⟩
  | error fault => simp [hroots, Except.isOk, Except.toBool] at hbuilds

end ApiContract.Schema
