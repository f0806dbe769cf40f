import ApiContract.Proofs.Schema.ComponentTable
import ApiContract.Proofs.Schema.ContentBranch
import ApiContract.Proofs.Schema.DeclaredOperation
import ApiContract.Proofs.Schema.Listing
import Mathlib.Data.List.Permutation

/-!
# Looked-up operations and the tree

A look-up of an operation takes any field of a member, while the tree has properties for methods
only.  So a look-up succeeds for fields of which the tree knows nothing.  For a method both agree:
the operation is found exactly if it is listed, and its schema is the one that the tree has.
-/

namespace ApiContract.Schema

variable {collection : Collection} {document key pathItem declaration : Value} {declared : Entries}
  {node : Node}

/-! ## Looking up an operation -/

/-- A failure tells of an absence, unless the key cannot be looked up or is one that messages cannot
show. -/
def IsAbsenceUnder (key : Value) (fault : Fault) : Prop :=
  fault.IsAbsence ∨
    fault = .misfit ∧ (key.isKey = false ∨ key.truthy = true ∧ key.asText? = none)

theorem isAbsenceUnder_ofBuild {e : BuildError} (hcause : e.cause.family.isAbsence = true)
    (htellable : e.cause.isTellable = true)
    (hmethod : (!e.method.truthy || e.method.asText?.isSome) = true) :
    IsAbsenceUnder e.path (.ofBuild e) := by
  unfold Fault.ofBuild
  split
  · exact .inl ⟨_, rfl, hcause⟩
  · rename_i huntellable
    refine .inr ⟨rfl, .inr ?_⟩
    simpa [BuildError.isTellable, htellable, hmethod] using huntellable

/-- A description declares a collection, and its members are mappings. -/
structure DeclaresMembers (collection : Collection) (document : Value) (declared : Entries) :
    Prop where
  found : collectionOf collection document = .ok (.map declared)
  table : declared.IsTable
  members : ∀ entry ∈ declared, ∃ fields : Entries, entry.2 = .map fields ∧ fields.IsTable

namespace DeclaresMembers

variable (hdeclares : DeclaresMembers collection document declared)

include hdeclares

theorem exists_fields (hlisted : IsListed collection document key pathItem) :
    ∃ fields : Entries, pathItem = .map fields ∧ fields.IsTable := by
  obtain ⟨entry, hentry, -, rfl⟩ := (isListed_iff_of_declared hdeclares.found).mp hlisted
  exact hdeclares.members entry (List.mem_filter.mp hentry).1

theorem isKey_of_isListed (hlisted : IsListed collection document key pathItem) :
    key.isKey = true := by
  obtain ⟨entry, hentry, hsame, -⟩ := (isListed_iff_of_declared hdeclares.found).mp hlisted
  exact Value.isKey_of_same (hdeclares.table.areKeys entry (List.mem_filter.mp hentry).1) hsame

section Present

variable (hpresent : key.isNull = false)

include hpresent

theorem item_eq_ok_iff :
    item collection document key = .ok pathItem ↔ IsListed collection document key pathItem := by
  cases hkey : key.isKey with
  | true => exact item_eq_ok_iff_isListed hdeclares.found hkey hpresent hdeclares.table
  | false =>
      rw [item_of_not_isKey hdeclares.found hkey]
      refine ⟨nofun, fun hlisted => ?_⟩
      rw [hdeclares.isKey_of_isListed hlisted] at hkey
      cases hkey

/-- An operation is found exactly if its member is listed and its field is not null. -/
theorem operation_eq_ok_iff {method : String} :
    operation collection document key (.str method) = .ok (pathItem, declaration) ↔
      IsListed collection document key pathItem ∧ fieldOf pathItem method = .ok declaration ∧
        declaration.isNull = false := by
  rw [Schema.operation_eq_ok_iff, hdeclares.item_eq_ok_iff hpresent, memberOf_str_eq_fieldOf]
  exact ⟨And.right, fun hfound => ⟨rfl, hfound⟩⟩

theorem isAbsenceUnder_of_item {fault : Fault}
    (hfails : item collection document key = .error fault) : IsAbsenceUnder key fault := by
  cases hkey : key.isKey with
  | false =>
      rw [item_of_not_isKey hdeclares.found hkey] at hfails
      cases hfails
      exact .inr ⟨rfl, .inl hkey⟩
  | true =>
      have habsent : ∀ pathItem, ¬ IsListed collection document key pathItem := by
        intro pathItem hlisted
        rw [(hdeclares.item_eq_ok_iff hpresent).mpr hlisted] at hfails
        cases hfails
      rw [item_of_not_isListed hdeclares.found hkey hpresent hdeclares.table habsent] at hfails
      cases hfails
      exact isAbsenceUnder_ofBuild (by cases collection <;> rfl) rfl rfl

/-- An operation that is not found is absent. -/
theorem isAbsenceUnder_of_operation {method : String} {fault : Fault}
    (hfails : operation collection document key (.str method) = .error fault) :
    IsAbsenceUnder key fault := by
  rw [operation] at hfails
  rcases bind_eq_error_iff.mp hfails with hitem | ⟨pathItem, hitem, hfails⟩
  · exact hdeclares.isAbsenceUnder_of_item hpresent hitem
  · obtain ⟨fields, rfl, -⟩ := hdeclares.exists_fields ((hdeclares.item_eq_ok_iff hpresent).mp hitem)
    rw [memberOf_map, ok_bind] at hfails
    split at hfails
    · cases hfails
      exact isAbsenceUnder_ofBuild rfl rfl (by simp [Value.asText?])
    · cases hfails

end Present

end DeclaresMembers

/-! ## What a tree has -/

/-- What is built for a method stays when operations are added. -/
theorem property?_addOperations {names : List String} {base built : ObjectNode Node}
    {method : String}
    (hbuilt : (addOperations collection document key base names).outcome = .ok built)
    (hnode : (operationSchema collection document key (.str method)).outcome = .ok node)
    (hmethod : method ∈ names ∨ base.property? method = some node) :
    built.property? method = some node := by
  induction names generalizing base with
  | nil =>
      cases hbuilt
      exact hmethod.resolve_left List.not_mem_nil
  | cons name rest ih =>
      rw [addOperations, Traced.outcome_bind] at hbuilt
      obtain ⟨schema, hschema, hrest⟩ := bind_eq_ok_iff.mp hbuilt
      refine ih hrest ?_
      rw [ObjectNode.property?_require]
      by_cases hname : method = name
      · subst hname
        rw [hnode] at hschema
        cases hschema
        exact .inr ObjectNode.property?_set_self
      · rw [ObjectNode.property?_set_of_ne hname]
        exact hmethod.imp_left fun hmem => (List.mem_cons.mp hmem).resolve_left hname

/-- Members that are added leave what stands under the other keys. -/
theorem get?_addItems_of_not_same {listed : Entries} {base built : ObjectNode Node}
    (hbuilt : (addItems collection document base listed).outcome = .ok built)
    (hbase : Entries.IsTable base.properties) (hkeys : ∀ entry ∈ listed, entry.1.isKey = true)
    (hkey : key.isKey = true) (hother : ∀ entry ∈ listed, entry.1.same key = false) :
    Entries.get? built.properties key = Entries.get? base.properties key := by
  induction listed generalizing base with
  | nil =>
      cases hbuilt
      rfl
  | cons entry rest ih =>
      rw [addItems, Traced.outcome_bind] at hbuilt
      obtain ⟨schema, -, hrest⟩ := bind_eq_ok_iff.mp hbuilt
      obtain ⟨hentryKey, hrestKeys⟩ := List.forall_mem_cons.mp hkeys
      obtain ⟨hentryOther, hrestOther⟩ := List.forall_mem_cons.mp hother
      rw [ih hrest (by rw [ObjectNode.properties_require]; exact hbase.insert hentryKey _) hrestKeys
        hrestOther, ObjectNode.properties_require, ObjectNode.set,
        hbase.get?_insert hentryKey hkey, hentryOther, if_neg Bool.false_ne_true]

/-- A tree has the schema of a listed member, under every key that is the same as the listed one. -/
theorem get?_addItems {listed : Entries} {base built : ObjectNode Node} {entry : Value × Value}
    (hbuilt : (addItems collection document base listed).outcome = .ok built)
    (hbase : Entries.IsTable base.properties) (hlisted : listed.IsTable) (hentry : entry ∈ listed)
    (hkey : key.isKey = true) (hsame : entry.1.same key = true) :
    ∃ member, (itemSchema collection document entry.1).outcome = .ok member ∧
      Entries.get? built.properties key = some (.object member) := by
  induction listed generalizing base with
  | nil => cases hentry
  | cons first rest ih =>
      rw [addItems, Traced.outcome_bind] at hbuilt
      obtain ⟨schema, hschema, hrest⟩ := bind_eq_ok_iff.mp hbuilt
      obtain ⟨hfirstKey, hother, hrestTable⟩ := Entries.isTable_cons_iff.mp hlisted
      have hnext : Entries.IsTable
          ((base.set first.1 (.object schema)).require first.1).properties := by
        rw [ObjectNode.properties_require]
        exact hbase.insert hfirstKey _
      rcases List.mem_cons.mp hentry with rfl | hmem
      · refine ⟨schema, hschema, ?_⟩
        rw [get?_addItems_of_not_same hrest hnext hrestTable.areKeys hkey fun other hmem => ?_,
          ObjectNode.properties_require, ObjectNode.set, hbase.get?_insert hfirstKey hkey,
          if_pos hsame]
        -- A later key that is the same would be listed twice.
        refine Bool.eq_false_iff.mpr fun hagain => ?_
        have hotherKey := hrestTable.areKeys other hmem
        have htwice := Value.same_of_same hfirstKey hotherKey hkey hsame hagain
        rw [hother other hmem] at htwice
        cases htwice
      · exact ih hrest hnext hrestTable hmem

/-! ## Agreement -/

/-- An operation is listed: its member is, and its method is one of those of the member. -/
def IsListedOperation (collection : Collection) (document key pathItem : Value) (method : String)
    (declaration : Value) : Prop :=
  IsListed collection document key pathItem ∧
    (∃ names, methods pathItem = .ok names ∧ method ∈ names) ∧
      fieldOf pathItem method = .ok declaration

namespace DeclaresMembers

variable (hdeclares : DeclaresMembers collection document declared) {method : String}

include hdeclares

/-- For a method, the field of a listed member that is not null is a listed operation. -/
theorem isListedOperation_iff (hmethod : method ∈ methodNames) :
    IsListedOperation collection document key pathItem method declaration ↔
      IsListed collection document key pathItem ∧ fieldOf pathItem method = .ok declaration ∧
        declaration.isNull = false := by
  refine and_congr_right fun hlisted => ?_
  obtain ⟨fields, rfl, htable⟩ := hdeclares.exists_fields hlisted
  rw [fieldOf_map, Except.ok.injEq]
  constructor
  · rintro ⟨⟨names, hnames, hmem⟩, rfl⟩
    exact ⟨rfl, ((mem_methods_iff htable hnames).mp hmem).2⟩
  · rintro ⟨rfl, hpresent⟩
    exact ⟨⟨_, rfl, (mem_methods_iff htable rfl).mpr ⟨hmethod, hpresent⟩⟩, rfl⟩

/-- The schema of an operation is the same under every key that is the same. -/
theorem operationSchema_of_same {other : Value} (hpresent : key.isNull = false)
    (hother : other.isKey = true) (hsame : other.same key = true)
    (hnode : (operationSchema collection document key (.str method)).outcome = .ok node) :
    (operationSchema collection document other (.str method)).outcome = .ok node := by
  obtain ⟨hdocument, pathItem, declaration, shape, hfound, hname, hshape, rfl⟩ :=
    operationSchema_eq_ok_iff.mp hnode
  obtain ⟨hlisted, hdeclared⟩ := (hdeclares.operation_eq_ok_iff hpresent).mp hfound
  have hkey := hdeclares.isKey_of_isListed hlisted
  have hotherListed : IsListed collection document other pathItem := by
    obtain ⟨entry, hentry, hentrySame, hvalue⟩ :=
      (isListed_iff_of_declared hdeclares.found).mp hlisted
    have hentryKey := hdeclares.table.areKeys entry (List.mem_filter.mp hentry).1
    refine (isListed_iff_of_declared hdeclares.found).mpr ⟨entry, hentry, ?_, hvalue⟩
    exact Value.same_of_same hentryKey hother hkey hentrySame hsame
  have hotherFound := (hdeclares.operation_eq_ok_iff ((isNull_eq_of_same hsame).trans hpresent)).mpr
    ⟨hotherListed, hdeclared⟩
  exact operationSchema_eq_ok_iff.mpr ⟨hdocument, _, _, shape, hotherFound, hname, hshape, rfl⟩

/-- A tree has the schema of a listed member under its key. -/
theorem exists_member_of_buildTree {entry : Value × Value} {tree : Tree}
    (hbuilt : (buildTree collection document).outcome = .ok tree)
    (hentry : entry ∈ listedItems declared) (hkey : key.isKey = true)
    (hsame : entry.1.same key = true) :
    ∃ member, (itemSchema collection document entry.1).outcome = .ok member ∧
      Entries.get? tree.members.properties key = some (.object member) := by
  obtain ⟨-, _, hfound, ⟨hnull, -⟩ | ⟨listed, hlisted, hmembers⟩⟩ := cases_of_buildTree hbuilt
  · cases hdeclares.found.symm.trans hfound
    cases hnull
  · cases (items_of_declared hdeclares.found).symm.trans hlisted
    exact get?_addItems hmembers Entries.isTable_nil (hdeclares.table.filter _) hentry hkey hsame

/-- The schema of an operation is the one that the tree has for it. -/
theorem property?_of_buildTree {tree : Tree} (hpresent : key.isNull = false)
    (hmethod : method ∈ methodNames)
    (hnode : (operationSchema collection document key (.str method)).outcome = .ok node)
    (hbuilt : (buildTree collection document).outcome = .ok tree) :
    ∃ member, Entries.get? tree.members.properties key = some (.object member) ∧
      member.property? method = some node := by
  obtain ⟨hdocument, pathItem, declaration, -, hfound, -⟩ := operationSchema_eq_ok_iff.mp hnode
  obtain ⟨hlisted, hfield, hdeclared⟩ := (hdeclares.operation_eq_ok_iff hpresent).mp hfound
  have hkey := hdeclares.isKey_of_isListed hlisted
  obtain ⟨fields, rfl, htable⟩ := hdeclares.exists_fields hlisted
  obtain ⟨entry, hentry, hsame, hvalue⟩ := (isListed_iff_of_declared hdeclares.found).mp hlisted
  obtain ⟨member, hmember, hget⟩ := hdeclares.exists_member_of_buildTree hbuilt hentry hkey hsame
  refine ⟨member, hget, ?_⟩
  -- The tree has looked the member up under the key that is listed.
  have hentryKey := hdeclares.table.areKeys entry (List.mem_filter.mp hentry).1
  have hentryItem := item_of_mem_listedItems hdeclares.found hdeclares.table hentry
    ((isNull_eq_of_same hsame).trans hpresent)
  rw [hvalue] at hentryItem
  simp only [itemSchema, hdocument, Bool.false_eq_true, if_false, Traced.outcome_bind,
    Traced.outcome_lift, hentryItem, ok_bind] at hmember
  obtain ⟨names, hnames, hmember⟩ := bind_eq_ok_iff.mp hmember
  rw [fieldOf_map, Except.ok.injEq] at hfield
  have hname := (mem_methods_iff htable hnames).mpr ⟨hmethod, hfield ▸ hdeclared⟩
  exact property?_addOperations hmember
    (hdeclares.operationSchema_of_same hpresent hentryKey hsame hnode) (.inl hname)

end DeclaresMembers

/-- An operation is found exactly if its member is listed and has a field of that name that is not
null, and otherwise it is absent.  For a method these are the listed operations, and the schema of
an operation is the one that the tree has for it. -/
theorem operation_iff_listed (hdeclares : DeclaresMembers collection document declared)
    (hpresent : key.isNull = false) (method : String) :
    (∀ pathItem declaration,
      operation collection document key (.str method) = .ok (pathItem, declaration) ↔
        IsListed collection document key pathItem ∧ fieldOf pathItem method = .ok declaration ∧
          declaration.isNull = false) ∧
    (∀ fault, operation collection document key (.str method) = .error fault →
      IsAbsenceUnder key fault) ∧
    (method ∈ methodNames →
      (∀ pathItem declaration,
        operation collection document key (.str method) = .ok (pathItem, declaration) ↔
          IsListedOperation collection document key pathItem method declaration) ∧
      ∀ node tree, (operationSchema collection document key (.str method)).outcome = .ok node →
        (buildTree collection document).outcome = .ok tree →
        ∃ member, Entries.get? tree.members.properties key = some (.object member) ∧
          member.property? method = some node) := by
  refine ⟨fun _ _ => hdeclares.operation_eq_ok_iff hpresent,
    fun _ => hdeclares.isAbsenceUnder_of_operation hpresent, fun hmethod => ⟨?_, ?_⟩⟩
  · intro pathItem declaration
    rw [hdeclares.operation_eq_ok_iff hpresent, hdeclares.isListedOperation_iff hmethod]
  · exact fun _ _ => hdeclares.property?_of_buildTree hpresent hmethod

/-- A member that declares parameters, an operation, and a draft of one. -/
def draftedFields : Entries :=
  [(.str "parameters", .list []), (.str "get", .map []), (.str "x-draft", .map [])]

def draftedItems : Entries := [(.str "/a", .map draftedFields)]

def draftedDocument : Value := .map [(.str "paths", .map draftedItems)]

theorem draftedDocument_declaresMembers :
    DeclaresMembers .paths draftedDocument draftedItems where
  found := by cbv
  table := by
    refine ⟨by simp [draftedItems, Value.isKey], ?_⟩
    simp [draftedItems, Entries.KeysDiffer, Entries.keys]
  members := by
    simp only [draftedItems, List.mem_singleton, forall_eq]
    refine ⟨_, rfl, by simp [draftedFields, Value.isKey], ?_⟩
    simp [draftedFields, Entries.KeysDiffer, Entries.keys]

theorem draftedDocument_iff_listed :
    DeclaresMembers .paths draftedDocument draftedItems ∧ (Value.str "/a").isNull = false ∧
      "get" ∈ methodNames ∧
      (∀ pathItem declaration,
        operation .paths draftedDocument (.str "/a") (.str "get") = .ok (pathItem, declaration) ↔
          IsListedOperation .paths draftedDocument (.str "/a") pathItem "get" declaration) ∧
      ∃ node tree member,
        (operationSchema .paths draftedDocument (.str "/a") (.str "get")).outcome = .ok node ∧
        (buildTree .paths draftedDocument).outcome = .ok tree ∧
        Entries.get? tree.members.properties (.str "/a") = some (.object member) ∧
        member.property? "get" = some node := by
  have hmethod : "get" ∈ methodNames := by decide
  have hpresent : (Value.str "/a").isNull = false := rfl
  obtain ⟨hlisted, htree⟩ :=
    (operation_iff_listed draftedDocument_declaresMembers hpresent "get").2.2 hmethod
  obtain ⟨node, hnode⟩ : ∃ node,
      (operationSchema .paths draftedDocument (.str "/a") (.str "get")).outcome = .ok node :=
    exists_eq_ok_of_isSome (by decide +kernel)
  obtain ⟨tree, hbuilt⟩ : ∃ tree, (buildTree .paths draftedDocument).outcome = .ok tree :=
    exists_eq_ok_of_isSome (by decide +kernel)
  obtain ⟨member, hget, hproperty⟩ := htree node tree hnode hbuilt
  exact ⟨draftedDocument_declaresMembers, hpresent, hmethod, hlisted, node, tree, member, hnode,
    hbuilt, hget, hproperty⟩

/-- The parameters of a member are found as an operation that is not listed, and a draft has a
schema that the tree does not have. -/
theorem draftedDocument_finds_unlisted :
    (∃ pathItem declaration,
      operation .paths draftedDocument (.str "/a") (.str "parameters") =
        .ok (pathItem, declaration) ∧
      ¬ IsListedOperation .paths draftedDocument (.str "/a") pathItem "parameters" declaration) ∧
    ∃ node tree,
      (operationSchema .paths draftedDocument (.str "/a") (.str "x-draft")).outcome = .ok node ∧
      (buildTree .paths draftedDocument).outcome = .ok tree ∧
      ∀ member, Entries.get? tree.members.properties (.str "/a") = some (.object member) →
        member.property? "x-draft" = none := by
  constructor
  · refine ⟨.map draftedFields, .list [], by cbv, ?_⟩
    rintro ⟨-, ⟨names, hnames, hmem⟩, -⟩
    obtain rfl : ["get"] = names := Except.ok.inj hnames
    simp at hmem
  · obtain ⟨node, hnode⟩ : ∃ node,
        (operationSchema .paths draftedDocument (.str "/a") (.str "x-draft")).outcome = .ok node :=
      exists_eq_ok_of_isSome (by decide +kernel)
    have htree : ((buildTree .paths draftedDocument).outcome.toOption.any fun tree =>
        (Entries.get? tree.members.properties (.str "/a")).all fun node =>
          node.asObject?.all fun member => (member.property? "x-draft").isNone) = true := by
      decide +kernel
    obtain ⟨tree, hbuilt, hlacks⟩ := exists_eq_ok_of_any htree
    refine ⟨node, tree, hnode, hbuilt, fun member hmember => ?_⟩
    rw [hmember] at hlacks
    exact Option.isNone_iff_eq_none.mp hlacks

end ApiContract.Schema
