import ApiContract.CommandLine.Inspect
import ApiContract.Proofs.Schema.Properties

/-!
# Rows of schemas

The commands that inspect walk through the description on their own.  Here the same rows are read
off the root schemas: one for every operation of a tree, and one for every kind of the component
schema.  Where the roots are built, both give the same rows in the same order.
-/

namespace ApiContract.CommandLine

open Schema

/-! ## Rows that are read off the roots -/

/-- The name of a method in capitals. -/
def upperCell : Value → Value
  | .str method => .str (Text.upper method)
  | v => v

/-- The row of an operation that stands under a key of a tree. -/
def leafRow (collection : Collection) (key : Value) (leaf : Value × Value) : List Value :=
  [.str collection.label, upperCell leaf.1, key,
    countCell (branchesOf (propertyOf leaf.2 "request")).length,
    countCell (branchesOf (propertyOf leaf.2 "responses")).length]

/-- The rows of the operations under a property of a tree. -/
def branchRows (collection : Collection) (item : Value × Value) : List (List Value) :=
  (propertiesOf item.2).map (leafRow collection item.1)

/-- One row for every operation in a tree. -/
def treeRows (collection : Collection) (tree : Value) : List (List Value) :=
  (propertiesOf tree).flatMap (branchRows collection)

/-- The first five names, with dots behind them if there are more. -/
def namesCell (names : List Value) : Value :=
  .str (String.intercalate ", " ((names.take 5).filterMap Value.asText?) ++
    if 5 < names.length then "..." else "")

/-- The row of a kind of components. -/
def kindRow (kind : Value × Value) : List Value :=
  [kind.1, countCell (requiredOf kind.2).length, namesCell (requiredOf kind.2)]

/-- One row for every kind in a component schema. -/
def kindRows (components : Value) : List (List Value) := (propertiesOf components).map kindRow

variable {document key : Value} {collection : Collection}

/-! ## Operations -/

theorem leafRow_node {method : String} {shape : OperationShape}
    (hbuilt : (buildOperation collection document key (.str method)).outcome = .ok shape) :
    leafRow collection key (.str method, shape.node.toValue) =
      operationRow collection key method shape := by
  obtain ⟨request, responses, rfl⟩ := exists_choices_of_buildOperation hbuilt
  simp [leafRow, operationRow, upperCell, branchCount, operationNode_eq_record, record, propertyOf,
    Node.entriesToValues, Entries.fieldD, Entries.field?_cons_self, Entries.field?_cons_of_ne]

theorem has_append_singleton (es : Entries Node) (first other : Value) (node : Node) :
    Entries.has (es ++ [(first, node)]) other = (es.has other || first.same other) := by
  simp [Entries.has]

/-- The methods of a path item give its operations and their rows in step. -/
theorem rows_addOperations (es : Entries Node) {methods : List String} {item : ObjectNode Node}
    (hnodup : methods.Nodup) (hfresh : ∀ method ∈ methods, es.has (.str method) = false)
    (hbuilt : (addOperations collection document key (record es) methods).outcome = .ok item) :
    ∃ leaves : Entries Node, item = record (es ++ leaves) ∧
      (methodRows collection document key methods).outcome =
        .ok ((Node.entriesToValues leaves).map (leafRow collection key)) := by
  induction methods generalizing es with
  | nil =>
      cases hbuilt
      exact ⟨[], by simp, rfl⟩
  | cons method rest ih =>
      obtain ⟨hmethod, hrest⟩ := List.nodup_cons.mp hnodup
      simp only [addOperations, operationSchema, Traced.outcome_bind, Traced.outcome_pure,
        bind_eq_ok_iff] at hbuilt
      obtain ⟨_, ⟨shape, hshape, ⟨⟩⟩, hbuilt⟩ := hbuilt
      rw [record_set_require,
        Entries.insert_of_not_has _ (hfresh method List.mem_cons_self)] at hbuilt
      obtain ⟨leaves, rfl, hrows⟩ := ih _ hrest (fun other hother => by
        rw [has_append_singleton, hfresh other (List.mem_cons_of_mem _ hother), Value.same_str,
          Bool.false_or, beq_eq_false_iff_ne]
        exact fun heq => hmethod (heq ▸ hother)) hbuilt
      refine ⟨(.str method, shape.node) :: leaves, by simp, ?_⟩
      rw [methodRows, Traced.outcome_bind, hshape, ok_bind, Traced.outcome_bind, hrows,
        Node.entriesToValues, List.map_cons, leafRow_node hshape]
      rfl

theorem rows_itemSchema {entry : Value × Value} {item : ObjectNode Node}
    (hunambiguous : entry.2.isUnambiguous = true)
    (hfound : Schema.item collection document entry.1 = .ok entry.2)
    (hbuilt : (itemSchema collection document entry.1).outcome = .ok item) :
    ∃ names, methods entry.2 = .ok names ∧
      (methodRows collection document entry.1 names).outcome =
        .ok (branchRows collection (entry.1, (Node.object item).toValue)) := by
  simp only [itemSchema, isNull_of_item hfound, Bool.false_eq_true, if_false, Traced.outcome_bind,
    Traced.outcome_lift, hfound, ok_bind, bind_eq_ok_iff] at hbuilt
  obtain ⟨names, hnames, hbuilt⟩ := hbuilt
  obtain ⟨leaves, rfl, hrows⟩ :=
    rows_addOperations [] (nodup_methods hunambiguous hnames) (fun _ _ => rfl) hbuilt
  exact ⟨names, hnames, by rw [hrows, branchRows, propertiesOf_object]; rfl⟩

/-! ## Trees -/

/-- The listed members of a collection give the path items of its tree and their rows in step. -/
theorem rows_addItems (es : Entries Node) {listed : Entries} {members : ObjectNode Node}
    (hunambiguous : ∀ entry ∈ listed, entry.2.isUnambiguous = true)
    (hfound : ∀ entry ∈ listed, item collection document entry.1 = .ok entry.2)
    (hdiffer : (es.keys ++ listed.keys).Pairwise fun left right => left.same right = false)
    (hbuilt : (addItems collection document (record es) listed).outcome = .ok members) :
    ∃ items : Entries Node, members = record (es ++ items) ∧
      (itemRows collection document listed).outcome =
        .ok ((Node.entriesToValues items).flatMap (branchRows collection)) := by
  induction listed generalizing es with
  | nil =>
      cases hbuilt
      exact ⟨[], by simp, rfl⟩
  | cons entry rest ih =>
      rw [addItems, Traced.outcome_bind] at hbuilt
      obtain ⟨item, hitem, hbuilt⟩ := bind_eq_ok_iff.mp hbuilt
      obtain ⟨names, hnames, hrows⟩ := rows_itemSchema (hunambiguous entry List.mem_cons_self)
        (hfound entry List.mem_cons_self) hitem
      rw [Entries.keys, Entries.keys, List.map_cons] at hdiffer
      have hfresh : es.has entry.1 = false := by
        rw [← Entries.any_keys_eq_has, List.any_eq_false]
        intro other hother
        exact Bool.eq_false_iff.mp
          ((List.pairwise_append.mp hdiffer).2.2 other hother entry.1 List.mem_cons_self)
      rw [record_set_require, Entries.insert_of_not_has _ hfresh] at hbuilt
      obtain ⟨items, rfl, hothers⟩ := ih _
        (fun other hother => hunambiguous other (List.mem_cons_of_mem _ hother))
        (fun other hother => hfound other (List.mem_cons_of_mem _ hother))
        (by simpa [Entries.keys] using hdiffer) hbuilt
      refine ⟨(entry.1, .object item) :: items, by simp, ?_⟩
      simp only [itemRows, Traced.outcome_bind, Traced.outcome_lift, Traced.outcome_pure, hnames,
        hrows, hothers, ok_bind, Node.entriesToValues, List.flatMap_cons]

section Roots

variable (htext : CollectionKeysAreTexts document) (hunambiguous : document.isUnambiguous = true)

include htext hunambiguous

/-- A tree and the listing of its collection have the same operations. -/
theorem rows_buildTree {tree : Tree} (hbuilt : (buildTree collection document).outcome = .ok tree) :
    ∃ listed, items collection document = .ok listed ∧
      (itemRows collection document listed).outcome = .ok (treeRows collection tree.toValue) := by
  obtain ⟨-, declared, hdeclared, ⟨hnull, hclosed⟩ | ⟨listed, hlisted, hmembers⟩⟩ :=
    cases_of_buildTree hbuilt
  all_goals obtain rfl := collectionOf_eq_memberIn hdeclared
  · refine ⟨[], ?_, by rw [treeRows, propertiesOf_tree, hclosed]; rfl⟩
    have hnone : memberIn document collection.field = .null := by
      cases hcase : memberIn document collection.field with
      | null => rfl
      | _ => simp [hcase, Value.isNull] at hnull
    rw [items, hdeclared, hnone]
    rfl
  · have hread := hlisted
    rw [items, hdeclared, ok_bind] at hread
    obtain ⟨entries, hentries, hread⟩ := bind_eq_ok_iff.mp hread
    obtain rfl := entriesIn_of_entriesIfAny hentries
    cases hread
    have hcollection : (memberIn document collection.field).isUnambiguous = true :=
      isUnambiguous_inherited.memberIn hunambiguous
    have hkeys := keysDiffer_entriesIn hcollection
    have hdiffer : (listedItems (entriesIn (memberIn document collection.field))).KeysDiffer :=
      hkeys.sublist (List.filter_sublist.map _)
    have hmember : ∀ entry ∈ listedItems (entriesIn (memberIn document collection.field)),
        entry.2.isUnambiguous = true := fun entry hentry =>
      isUnambiguous_inherited.of_mem_entriesIn hcollection (List.mem_filter.mp hentry).1
    obtain ⟨items, hitems, hrows⟩ := rows_addItems [] hmember
      (fun entry hentry => item_of_mem_texts htext hunambiguous hdeclared hentry) hdiffer
      hmembers
    refine ⟨_, hlisted, ?_⟩
    rw [hrows, treeRows, propertiesOf_tree, hitems]
    rfl

/-- The listed operations are those of both trees. -/
theorem operationRows_eq {roots : Roots} (hbuilt : (buildRoots document).outcome = .ok roots) :
    (operationRows document).outcome =
      .ok (treeRows .paths (roots.schema .paths) ++ treeRows .webhooks (roots.schema .webhooks)) := by
  simp only [buildRoots, Traced.outcome_bind, Traced.outcome_pure, bind_eq_ok_iff] at hbuilt
  obtain ⟨paths, hpaths, webhooks, hwebhooks, _, -, hbuilt⟩ := hbuilt
  cases hbuilt
  obtain ⟨listedPaths, hlistedPaths, hpathRows⟩ := rows_buildTree htext hunambiguous hpaths
  obtain ⟨listedHooks, hlistedHooks, hhookRows⟩ := rows_buildTree htext hunambiguous hwebhooks
  simp only [operationRows, collectionRows, Collection.all, Traced.outcome_bind,
    Traced.outcome_lift, Traced.outcome_pure, hlistedPaths, hlistedHooks, hpathRows, hhookRows,
    ok_bind, Roots.schema, List.append_nil]

end Roots

/-! ## Components -/

/-- The names of all declared components are texts. -/
def ComponentKeysAreTexts (document : Value) : Prop :=
  ∀ kind : ComponentKind, ∀ entry ∈ entriesIn (memberIn (memberIn document "components") kind.name),
    ∃ name, entry.1 = .str name

theorem mapM_asText? {cells : List Value} (htext : ∀ cell ∈ cells, ∃ s, cell = .str s) :
    cells.mapM Value.asText? = some (cells.filterMap Value.asText?) := by
  induction cells with
  | nil => rfl
  | cons cell rest ih =>
      obtain ⟨s, rfl⟩ := htext cell List.mem_cons_self
      rw [List.mapM_cons, ih fun other hother => htext other (List.mem_cons_of_mem _ hother)]
      rfl

/-- Names that are texts are shown as they are. -/
theorem namesText?_eq {names : List Value} (htext : ∀ name ∈ names, ∃ s, name = .str s) :
    (namesText? names).map Value.str = some (namesCell names) := by
  rw [namesText?, mapM_asText? fun name hname => htext name (List.mem_of_mem_take hname)]
  rfl

theorem componentRows_eq {token : Token} (hdiffer : ∀ entry ∈ token, Entries.KeysDiffer entry.2)
    (htext : ∀ entry ∈ token, ∀ member ∈ entry.2, ∃ name, member.1 = .str name) :
    componentRows token = .ok (token.map fun entry =>
      kindRow (.str entry.1.name, (Node.object (kindNode entry.2)).toValue)) := by
  induction token with
  | nil => rfl
  | cons entry rest ih =>
      obtain ⟨kind, members⟩ := entry
      have hnames : ∀ name ∈ Entries.keys members, ∃ s, name = .str s := by
        intro name hname
        obtain ⟨member, hmember, rfl⟩ := List.mem_map.mp hname
        exact htext _ List.mem_cons_self member hmember
      obtain ⟨text, hshown, hcell⟩ := Option.map_eq_some_iff.mp (namesText?_eq hnames)
      have hothers := ih (fun other hother => hdiffer other (List.mem_cons_of_mem _ hother))
        fun other hother => htext other (List.mem_cons_of_mem _ hother)
      rw [componentRows, hshown]
      dsimp only
      rw [hothers, ok_bind, List.map_cons, kindRow, requiredOf_object,
        kindNode_eq_record (hdiffer _ List.mem_cons_self), hcell]
      simp [countCell, record, Entries.keys]

/-- The members of the table have the names that are declared. -/
theorem texts_of_mem_token {token : Token} (htext : ComponentKeysAreTexts document)
    (hunambiguous : document.isUnambiguous = true)
    (hread : (componentsToken document).outcome = .ok token) :
    ∀ entry ∈ token, ∀ member ∈ entry.2, ∃ name, member.1 = .str name := by
  obtain ⟨fields, entries, rfl, hentries, htoken⟩ := componentsToken_eq_ok_iff.mp hread
  obtain rfl := entriesIn_of_entriesIfAny hentries
  have hcomponents : (memberIn (.map fields) "components").isUnambiguous = true :=
    isUnambiguous_inherited.memberIn hunambiguous
  intro entry hentry member hmember
  obtain ⟨declared, hdeclared, hreads⟩ := exists_declared_of_mem_token htoken hentry
  have hkind : memberIn (memberIn (.map fields) "components") entry.1.name = .map declared := by
    have hfield := (keysDiffer_entriesIn hcomponents).field?_of_mem hdeclared
    rw [memberIn, Entries.fieldD, memberIn]
    exact congrArg (Option.getD · Value.null) hfield
  obtain ⟨source, hsource, hkey, -⟩ := exists_of_mem_right hreads hmember
  have hsource : source ∈ entriesIn
      (memberIn (memberIn (.map fields) "components") entry.1.name) := by
    rw [hkind]
    exact hsource
  exact hkey ▸ htext entry.1 source hsource

/-- The listed kinds are those of the component schema. -/
theorem componentRows_of_buildRoots {roots : Roots} (htext : ComponentKeysAreTexts document)
    (hunambiguous : document.isUnambiguous = true)
    (hbuilt : (buildRoots document).outcome = .ok roots) :
    ∃ token, (componentsToken document).outcome = .ok token ∧
      componentRows token = .ok (kindRows (roots.schema .components)) := by
  simp only [buildRoots, Traced.outcome_bind, Traced.outcome_pure, bind_eq_ok_iff] at hbuilt
  obtain ⟨_, -, _, -, token, htoken, hbuilt⟩ := hbuilt
  cases hbuilt
  refine ⟨token, htoken, ?_⟩
  obtain ⟨fields, entries, rfl, hentries, hread⟩ := componentsToken_eq_ok_iff.mp htoken
  have hkinds : (token.map (·.1)).Nodup := by
    obtain rfl := entriesIn_of_entriesIfAny hentries
    have hcomponents : (memberIn (.map fields) "components").isUnambiguous = true :=
      isUnambiguous_inherited.memberIn hunambiguous
    exact nodup_kinds (keysDiffer_entriesIn hcomponents) hread
  rw [componentRows_eq (keysDiffer_of_mem_token hunambiguous htoken)
    (texts_of_mem_token htext hunambiguous htoken), kindRows, Roots.schema,
    componentsNode_eq_record hkinds, propertiesOf_object, record, Node.entriesToValues_eq_map,
    List.map_map, List.map_map]
  rfl

end ApiContract.CommandLine
