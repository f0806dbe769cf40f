import ApiContract.Proofs.Schema.ComponentTable
import ApiContract.Proofs.Schema.DeclaredOperation
import ApiContract.Proofs.Schema.Listing
import ApiContract.Proofs.Schema.Unambiguous
import ApiContract.Proofs.Schema.Unplaced

/-!
# The first failing operation is reported

The roots are built operation by operation, the paths before the webhooks and each in declaration
order.  A failure of the builders that is not one of the component table comes from the first
operation that fails, and tells its path and its method.

An operation is reached through the key and the method that it is listed under.  That the look-up
finds what is listed needs that no key is declared twice.
-/

namespace ApiContract.Schema

/-- Where an operation is declared. -/
structure OperationPlace where
  collection : Collection
  key : Value
  method : String

/-- The schema of the operation at a place. -/
def OperationPlace.schema (place : OperationPlace) (document : Value) : Except Fault Node :=
  (operationSchema place.collection document place.key (.str place.method)).outcome

/-- The places of the operations that a member of a collection declares. -/
def itemPlaces (collection : Collection) (entry : Value × Value) : List OperationPlace :=
  ((entriesIn entry.2).filterMap methodOf?).map fun method => ⟨collection, entry.1, method⟩

def collectionPlaces (document : Value) (collection : Collection) : List OperationPlace :=
  (listedItems (entriesIn (memberIn document collection.field))).flatMap (itemPlaces collection)

/-- The places of all operations of a description, in the order in which they are built. -/
def operationPlaces (document : Value) : List OperationPlace :=
  Collection.all.flatMap (collectionPlaces document)

/-- All operations at some places are built. -/
def AllBuilt (document : Value) (places : List OperationPlace) : Prop :=
  ∀ place ∈ places, ∃ node, place.schema document = .ok node

/-- Of the operations at some places the first that is not built fails with `e`, which tells where
it is. -/
def FirstFails (document : Value) (places : List OperationPlace) (e : BuildError) : Prop :=
  ∃ before place after, places = before ++ place :: after ∧ AllBuilt document before ∧
    place.schema document = .error (.build e) ∧ e.path = place.key ∧ e.method = .str place.method

/-- The keys of both collections are texts. -/
def CollectionKeysAreTexts (document : Value) : Prop :=
  ∀ collection : Collection, ∀ entry ∈ entriesIn (memberIn document collection.field),
    ∃ name, entry.1 = .str name

variable {document key : Value} {collection : Collection} {e : BuildError}
  {places : List OperationPlace}

/-! ## Stages that build operations -/

/-- A stage builds the operations at some places: it ends in a value only if all of them are built,
and a failure of the builders that it ends in is that of the first which is not. -/
def Builds {α : Type} (document : Value) (places : List OperationPlace) : Except Fault α → Prop
  | .ok _ => AllBuilt document places
  | .error fault => ∀ e, fault = .build e → FirstFails document places e

section Stages

variable {α β : Type} {x : Except Fault α} {later : List OperationPlace}

theorem FirstFails.append_left (hfails : FirstFails document places e)
    (later : List OperationPlace) : FirstFails document (places ++ later) e := by
  obtain ⟨before, place, after, rfl, hplace⟩ := hfails
  exact ⟨before, place, after ++ later, by simp, hplace⟩

theorem FirstFails.append_right (hbuilt : AllBuilt document places)
    (hfails : FirstFails document later e) : FirstFails document (places ++ later) e := by
  obtain ⟨before, place, after, rfl, hbefore, hplace⟩ := hfails
  refine ⟨places ++ before, place, after, by simp, ?_, hplace⟩
  intro other hother
  rcases List.mem_append.mp hother with hmem | hmem
  · exact hbuilt other hmem
  · exact hbefore other hmem

/-- A stage that fails with a misfit at most leaves it to the next to build the operations. -/
theorem builds_of_ne_build (hmisfit : ∀ e : BuildError, x ≠ .error (.build e))
    {f : α → Except Fault β} (hf : ∀ a, x = .ok a → Builds document places (f a)) :
    Builds document places (x >>= f) := by
  cases x with
  | ok a => exact hf a rfl
  | error fault => exact fun e hfault => absurd (congrArg Except.error hfault) (hmisfit e)

theorem builds_ok (a : α) : Builds document [] (.ok a : Except Fault α) := nofun

/-- One stage after another builds the places of both, in order. -/
theorem Builds.andThen {f : α → Except Fault β} (hx : Builds document places x)
    (hf : ∀ a, x = .ok a → Builds document later (f a)) :
    Builds document (places ++ later) (x >>= f) := by
  cases x with
  | error fault => exact fun e hfault => (hx e hfault).append_left later
  | ok a =>
      -- The later stage is reached only when everything before it is built.
      have hlater := hf a rfl
      change Builds document (places ++ later) (f a)
      cases hfa : f a with
      | error fault =>
          rw [hfa] at hlater
          exact fun e hfault => FirstFails.append_right hx (hlater e hfault)
      | ok b =>
          rw [hfa] at hlater
          intro place hplace
          rcases List.mem_append.mp hplace with hmem | hmem
          · exact hx place hmem
          · exact hlater place hmem

end Stages

theorem entriesOf_ne_build (v : Value) (e : BuildError) : entriesOf v ≠ .error (.build e) := by
  cases v <;> nofun

theorem entriesIfAny_ne_build (v : Value) (e : BuildError) :
    entriesIfAny v ≠ .error (.build e) := by
  unfold entriesIfAny
  split
  · exact entriesOf_ne_build v e
  · nofun

theorem memberOf_ne_build (v key : Value) (e : BuildError) :
    memberOf v key ≠ .error (.build e) := by
  intro hfails
  rcases bind_eq_error_iff.mp hfails with hentries | ⟨entries, -, hfails⟩
  · exact entriesOf_ne_build v e hentries
  · split at hfails <;> cases hfails

/-! ## Operations -/

theorem isNull_of_item {pathItem : Value} (hitem : item collection document key = .ok pathItem) :
    document.isNull = false := by
  obtain ⟨-, -, _, hcollection, -⟩ := item_eq_ok_iff.mp hitem
  unfold collectionOf at hcollection
  split at hcollection
  · cases hcollection
  · rename_i hpresent
    simpa using hpresent

/-- A failure of an operation shape tells its place once that is filled in. -/
theorem located_of_operationShape {pathItem declaration method : Value}
    (hfails : (operationShape pathItem declaration).outcome.mapError (Fault.locate key method) =
      .error (.build e)) : e.path = key ∧ e.method = method := by
  have hunplaced := unplaced_operationShape pathItem declaration
  cases hshape : (operationShape pathItem declaration).outcome with
  | ok shape => simp [hshape, Except.mapError] at hfails
  | error fault =>
      rw [hshape] at hunplaced hfails
      have hlocated : fault.locate key method = .build e := Except.error.inj hfails
      obtain rfl | ⟨given, rfl, hpath, hmethod, -⟩ : IsUnplaced fault := by cases hunplaced; assumption
      · cases hlocated
      · obtain rfl := eq_of_ofBuild hlocated
        simp [BuildError.locate, hpath, hmethod, Value.isNull]

/-- Once an operation is looked for in a member that is there, a failure tells its place. -/
theorem located_of_operationSchema {pathItem : Value} {method : String}
    (hitem : item collection document key = .ok pathItem)
    (hfails : (operationSchema collection document key (.str method)).outcome =
      .error (.build e)) :
    e.path = key ∧ e.method = .str method := by
  have hlookup : operation collection document key (.str method) =
      memberOf pathItem (.str method) >>= fun found =>
        if found.isNull then .error (.ofBuild
          { cause := .noOperation collection, path := key, method := .str method })
        else .ok (pathItem, found) := by
    unfold operation
    rw [hitem]
    rfl
  simp only [operationSchema, buildOperation, isNull_of_item hitem, Bool.false_eq_true, if_false,
    hlookup, Traced.outcome_bind, Traced.outcome_lift, Traced.outcome_note,
    Traced.outcome_mapError, Traced.outcome_pure] at hfails
  rcases bind_eq_error_iff.mp hfails with hfails | ⟨_, -, ⟨⟩⟩
  rcases bind_eq_error_iff.mp hfails with hfound | ⟨⟨_, declaration⟩, -, hfails⟩
  · rcases bind_eq_error_iff.mp hfound with hmember | ⟨found, -, habsent⟩
    · exact absurd hmember (memberOf_ne_build _ _ e)
    · split at habsent
      · obtain rfl := eq_of_ofBuild (Except.error.inj habsent)
        exact ⟨rfl, rfl⟩
      · cases habsent
  · exact located_of_operationShape hfails

theorem builds_operationSchema {pathItem : Value} (method : String)
    (hitem : item collection document key = .ok pathItem) :
    Builds document [⟨collection, key, method⟩]
      (operationSchema collection document key (.str method)).outcome := by
  cases hbuilt : (operationSchema collection document key (.str method)).outcome with
  | ok node =>
      intro place hplace
      rw [List.mem_singleton.mp hplace]
      exact ⟨node, hbuilt⟩
  | error fault =>
      rintro e rfl
      obtain ⟨hpath, hmethod⟩ := located_of_operationSchema hitem hbuilt
      exact ⟨[], _, [], rfl, nofun, hbuilt, hpath, hmethod⟩

/-! ## Members of a collection -/

theorem builds_addOperations {pathItem : Value}
    (hitem : item collection document key = .ok pathItem) (methods : List String)
    (base : ObjectNode Node) :
    Builds document (methods.map fun method => ⟨collection, key, method⟩)
      (addOperations collection document key base methods).outcome := by
  induction methods generalizing base with
  | nil => exact builds_ok base
  | cons method rest ih =>
      rw [addOperations, Traced.outcome_bind]
      exact (builds_operationSchema method hitem).andThen fun _ _ => ih _

theorem builds_itemSchema {entry : Value × Value}
    (hitem : item collection document entry.1 = .ok entry.2) :
    Builds document (itemPlaces collection entry)
      (itemSchema collection document entry.1).outcome := by
  simp only [itemSchema, isNull_of_item hitem, Bool.false_eq_true, if_false, Traced.outcome_bind,
    Traced.outcome_lift, hitem, ok_bind, methods, bind_assoc]
  refine builds_of_ne_build (entriesOf_ne_build entry.2) fun entries hentries => ?_
  have hdeclared : entriesIn entry.2 = entries := by
    rw [entriesOf_eq_ok_iff.mp hentries]
    rfl
  rw [itemPlaces, hdeclared]
  exact builds_addOperations hitem _ _

theorem builds_addItems {listed : Entries} (base : ObjectNode Node)
    (hitems : ∀ entry ∈ listed, item collection document entry.1 = .ok entry.2) :
    Builds document (listed.flatMap (itemPlaces collection))
      (addItems collection document base listed).outcome := by
  induction listed generalizing base with
  | nil => exact builds_ok base
  | cons entry rest ih =>
      rw [addItems, Traced.outcome_bind, List.flatMap_cons]
      exact (builds_itemSchema (hitems entry List.mem_cons_self)).andThen fun _ _ =>
        ih _ fun other hother => hitems other (List.mem_cons_of_mem _ hother)

section Roots

variable (htext : CollectionKeysAreTexts document) (hunambiguous : document.isUnambiguous = true)

include htext hunambiguous

/-- What is listed under a text is found. -/
theorem item_of_mem_texts {entry : Value × Value}
    (hcollection : collectionOf collection document = .ok (memberIn document collection.field))
    (hentry : entry ∈ listedItems (entriesIn (memberIn document collection.field))) :
    item collection document entry.1 = .ok entry.2 := by
  have hmem := (List.mem_filter.mp hentry).1
  obtain ⟨name, hname⟩ := htext collection entry hmem
  have hdeclaredKeys : (memberIn document collection.field).isUnambiguous = true :=
    isUnambiguous_inherited.memberIn hunambiguous
  have hdiffer := keysDiffer_entriesIn hdeclaredKeys
  have htexts := htext collection
  cases hdeclared : memberIn document collection.field with
  | map es =>
      rw [hdeclared] at hdiffer hcollection hentry htexts
      have htable : Entries.IsTable es := by
        refine ⟨fun other hother => ?_, hdiffer⟩
        obtain ⟨text, htext⟩ := htexts other hother
        rw [htext]
        rfl
      have hpresent : entry.1.isNull = false := by
        rw [hname]
        rfl
      exact item_of_mem_listedItems hcollection htable hentry hpresent
  | _ => simp [hdeclared, entriesIn, Value.asMap?] at hmem

/-- Once there is a component table, a tree builds the operations of its collection. -/
theorem builds_buildTree {token : Token} (htoken : (componentsToken document).outcome = .ok token) :
    Builds document (collectionPlaces document collection)
      (buildTree collection document).outcome := by
  obtain ⟨es, -, rfl, -, -⟩ := componentsToken_eq_ok_iff.mp htoken
  have hcollection : collectionOf collection (.map es) =
      .ok (memberIn (.map es) collection.field) := rfl
  simp only [buildTree, Traced.outcome_bind, Traced.outcome_lift, htoken, ok_bind, hcollection]
  split
  · rename_i hnull
    have hnone : collectionPlaces (.map es) collection = [] := by
      cases hdeclared : memberIn (.map es) collection.field with
      | null => simp [collectionPlaces, hdeclared, entriesIn, Value.asMap?, listedItems]
      | _ => simp [hdeclared, Value.isNull] at hnull
    rw [hnone]
    exact builds_ok _
  · simp only [items, hcollection, ok_bind, bind_assoc, pure_bind, Traced.outcome_bind,
      Traced.outcome_lift]
    refine builds_of_ne_build (entriesIfAny_ne_build _) fun entries hentries => ?_
    obtain rfl := entriesIn_of_entriesIfAny hentries
    rw [← List.append_nil (collectionPlaces _ _)]
    refine (builds_addItems .closed fun entry hentry => ?_).andThen fun members _ => builds_ok _
    exact item_of_mem_texts htext hunambiguous hcollection hentry

end Roots

/-- If the roots cannot be built, then for the reason for which the component table cannot, or else
for the reason for which the first failing operation cannot, and then the failure tells where that
operation is. -/
theorem buildRoots_fails_at_first (htext : CollectionKeysAreTexts document)
    (hunambiguous : document.isUnambiguous = true)
    (hfails : (buildRoots document).outcome = .error (.build e)) :
    (componentsToken document).outcome = .error (.build e) ∨
      ((∃ token, (componentsToken document).outcome = .ok token) ∧
        FirstFails document (operationPlaces document) e) := by
  cases htoken : (componentsToken document).outcome with
  | error fault =>
      left
      rw [buildRoots, buildTree, Traced.outcome_bind, Traced.outcome_bind, htoken] at hfails
      cases hfails
      rfl
  | ok token =>
      right
      refine ⟨⟨token, rfl⟩, ?_⟩
      have hbuilds : Builds document (operationPlaces document) (buildRoots document).outcome := by
        simp only [buildRoots, Traced.outcome_bind, htoken, operationPlaces, Collection.all,
          List.flatMap_cons]
        refine (builds_buildTree htext hunambiguous htoken).andThen fun _ _ => ?_
        exact (builds_buildTree htext hunambiguous htoken).andThen fun _ _ => builds_ok _
      rw [hfails] at hbuilds
      exact hbuilds e rfl

/-- An operation with one parameter, whose location is given. -/
def placedOperation (location : Value) : Value :=
  .map [(.str "parameters", .list [
    .map [(.str "name", .str "q"), (.str "in", location), (.str "schema", .map [])]])]

/-- A description in which one operation is built and two are not. -/
def strayParameters : Value :=
  .map [
    (.str "webhooks", .map [(.str "moved", .map [
      (.str "post", placedOperation (.str "form"))])]),
    (.str "paths", .map [
      (.str "/pets", .map [
        (.str "get", placedOperation (.str "query")),
        (.str "put", placedOperation (.str "body"))])])]

/-- Whether a stage ends in a failure that the builders report. -/
def endsInReport {α : Type} : Except Fault α → Bool
  | .error (.build _) => true
  | _ => false

theorem exists_of_endsInReport {α : Type} {x : Except Fault α} (hends : endsInReport x = true) :
    ∃ e : BuildError, x = .error (.build e) := by
  unfold endsInReport at hends
  split at hends
  · exact ⟨_, rfl⟩
  · cases hends

theorem strayParameters_fails_at_first :
    CollectionKeysAreTexts strayParameters ∧ strayParameters.isUnambiguous = true ∧
      ∃ e : BuildError, (buildRoots strayParameters).outcome = .error (.build e) ∧
        ((componentsToken strayParameters).outcome = .error (.build e) ∨
          ((∃ token, (componentsToken strayParameters).outcome = .ok token) ∧
            FirstFails strayParameters (operationPlaces strayParameters) e)) := by
  have htext : CollectionKeysAreTexts strayParameters := by
    intro collection entry hentry
    cases collection <;>
      simp [strayParameters, memberIn_map, Collection.field, Entries.fieldD, Entries.field?,
        Entries.get?] at hentry <;> simp [hentry]
  have hunambiguous : strayParameters.isUnambiguous = true := by decide +kernel
  have hends : endsInReport (buildRoots strayParameters).outcome = true := by decide +kernel
  obtain ⟨e, hfails⟩ := exists_of_endsInReport hends
  exact ⟨htext, hunambiguous, e, hfails, buildRoots_fails_at_first htext hunambiguous hfails⟩

end ApiContract.Schema
