import ApiContract.Proofs.Schema.FirstFailure
import ApiContract.Proofs.Schema.WellFormed

/-!
# Schemas seen from outside

A schema that was emitted is a value like any other.  Here it is seen through its properties, its
required names and its branches.  A tree is a record of its path items, a path item is a record of
its operations, and the component schema is a record of its kinds: no key is met twice on the way,
so each grows by exactly the entries that are added, in their order.
-/

namespace ApiContract.Schema

variable {document key : Value} {collection : Collection}

/-- The items of a value; one that is not a list has none. -/
def itemsIn : Value → List Value
  | .list items => items
  | _ => []

/-- The properties that a schema names, in order. -/
def propertiesOf (schema : Value) : Entries := entriesIn (memberIn schema "properties")

/-- The names that a schema requires. -/
def requiredOf (schema : Value) : List Value := itemsIn (memberIn schema "required")

/-- The branches of a schema. -/
def branchesOf (schema : Value) : List Value := itemsIn (memberIn schema "oneOf")

/-- The schema of a property, null when it is not named. -/
def propertyOf (schema : Value) (name : String) : Value := Entries.fieldD (propertiesOf schema) name

@[simp] theorem propertiesOf_object (o : ObjectNode Node) :
    propertiesOf (Node.object o).toValue = Node.entriesToValues o.properties := by
  simp [propertiesOf, Node.toValue, memberIn, entriesIn, Value.asMap?, Entries.fieldD,
    Entries.field?_cons_self, Entries.field?_cons_of_ne]

@[simp] theorem requiredOf_object (o : ObjectNode Node) :
    requiredOf (Node.object o).toValue = o.required := by
  simp [requiredOf, Node.toValue, memberIn, entriesIn, Value.asMap?, Entries.fieldD, itemsIn,
    Entries.field?_cons_self, Entries.field?_cons_of_ne]

@[simp] theorem length_branchesOf_oneOf (branches : List Node) :
    (branchesOf (Node.oneOf branches).toValue).length = branches.length := by
  simp [branchesOf, Node.toValue, memberIn, entriesIn, Value.asMap?, Entries.fieldD, itemsIn,
    Entries.field?_cons_self, Node.toValues_eq_map]

/-- The table beside the properties of a tree hides none of them. -/
@[simp] theorem propertiesOf_tree (tree : Tree) :
    propertiesOf tree.toValue = Node.entriesToValues tree.members.properties := by
  simp [propertiesOf, Tree.toValue, Node.toValue, memberIn, entriesIn, Value.asMap?,
    Entries.fieldD, Entries.field?_cons_self, Entries.field?_cons_of_ne]

/-! ## Operations -/

/-- The request and the responses of an operation are choices. -/
theorem exists_choices_of_buildOperation {method : Value} {shape : OperationShape}
    (hbuilt : (buildOperation collection document key method).outcome = .ok shape) :
    ∃ request responses, shape = ⟨.oneOf request, .oneOf responses⟩ := by
  have hschema : (operationSchema collection document key method).outcome = .ok shape.node := by
    rw [operationSchema, Traced.outcome_bind, hbuilt]
    rfl
  obtain ⟨_, _, -, parameters, body, responses, -, hnode⟩ := exists_reads_of_operationSchema hschema
  rw [operationNode_eq_record, operationNode_eq_record] at hnode
  simp only [record, Node.object.injEq, ObjectNode.mk.injEq, List.cons.injEq, Prod.mk.injEq,
    true_and, and_true] at hnode
  obtain ⟨request, answers⟩ := shape
  obtain ⟨rfl, rfl⟩ := hnode.1
  exact ⟨_, _, rfl⟩

/-- A path item declares an operation for each method once. -/
theorem nodup_methods {pathItem : Value} {names : List String}
    (hkeys : pathItem.isUnambiguous = true) (hmethods : methods pathItem = .ok names) :
    names.Nodup := by
  obtain ⟨entries, hentries, hmethods⟩ := bind_eq_ok_iff.mp hmethods
  obtain rfl := entriesOf_eq_ok_iff.mp hentries
  cases hmethods
  have hdiffer : List.Pairwise (fun left right : Value × Value => left.1.same right.1 = false)
      entries := List.pairwise_map.mp (Value.isUnambiguous_map_iff.mp hkeys).1
  refine List.Pairwise.filterMap methodOf? (fun left right hleft name hname other hother => ?_) hdiffer
  rintro rfl
  have hkey : ∀ entry : Value × Value, methodOf? entry = some name → entry.1 = .str name := by
    intro entry hentry
    unfold methodOf? at hentry
    split at hentry
    · split at hentry
      · cases hentry
        rfl
      · cases hentry
    · cases hentry
  simp [hkey left hname, hkey right hother] at hleft

/-! ## Kinds of components -/

/-- Every kind of the table is a field of the components, and none stands in it twice. -/
theorem nodup_kinds {entries : Entries} {token : Token} (hdiffer : entries.KeysDiffer)
    (hread : (tokenOfEntries entries).outcome = .ok token) : (token.map (·.1)).Nodup := by
  induction entries generalizing token with
  | nil =>
      cases hread
      exact List.nodup_nil
  | cons entry rest ih =>
      obtain ⟨hfirst, hrest⟩ := List.pairwise_cons.mp hdiffer
      obtain ⟨first, others, htoken, hothers, rfl⟩ := tokenOfEntries_cons_eq_ok_iff.mp hread
      rcases tokenEntry_cases htoken with ⟨rfl, -⟩ | hone
      · exact ih hrest hothers
      · obtain ⟨kind, _, _, hfield, -, -, rfl⟩ := hone
        rw [List.singleton_append, List.map_cons, List.nodup_cons]
        refine ⟨fun hmem => ?_, ih hrest hothers⟩
        obtain ⟨⟨_, nodes⟩, hentry, rfl⟩ := List.mem_map.mp hmem
        obtain ⟨declared, hdeclared, -⟩ := exists_declared_of_mem_token hothers hentry
        have hsame := hfirst _ (List.mem_map.mpr ⟨_, hdeclared, rfl⟩)
        simp [hfield] at hsame

/-- A record to which required properties are added under keys that differ grows by just these. -/
theorem foldl_record {α : Type} {name : α → Value} {node : α → Node} (es : Entries Node)
    {added : List α}
    (hdiffer : Entries.KeysDiffer (es ++ added.map fun a => (name a, node a))) :
    added.foldl (fun o a => (o.set (name a) (node a)).require (name a)) (record es) =
      record (es ++ added.map fun a => (name a, node a)) := by
  induction added generalizing es with
  | nil => simp
  | cons first rest ih =>
      have hfresh := Entries.KeysDiffer.has_eq_false hdiffer
      rw [List.map_cons, List.append_cons] at hdiffer ⊢
      rw [List.foldl_cons, record_set_require, Entries.insert_of_not_has _ hfresh, ih _ hdiffer]

/-- The component schema is a record with one property for each kind of the table. -/
theorem componentsNode_eq_record {token : Token} (hkinds : (token.map (·.1)).Nodup) :
    componentsNode token =
      record (token.map fun entry => (.str entry.1.name, .object (kindNode entry.2))) := by
  refine foldl_record [] ?_
  rw [List.nil_append, Entries.KeysDiffer, Entries.keys, List.map_map, List.pairwise_map]
  rw [List.Nodup, List.pairwise_map] at hkinds
  refine hkinds.imp fun {left right} hne => ?_
  rw [Function.comp_apply, Function.comp_apply, Value.same_str, beq_eq_false_iff_ne]
  exact fun hname => hne (ComponentKind.name_injective hname)

end ApiContract.Schema
