import ApiContract.Proofs.Schema.ComponentTable
import ApiContract.Proofs.Schema.Reporting

/-!
# What building the roots reports

On a well-shaped description building the root schemas ends in the roots or in a failure that is
reported, provided that the location of every parameter can stand in a message.  An operation is
reached through its collection, so what is needed of it follows from what is said of the whole
description.
-/

namespace ApiContract.Schema

variable {v declaration document pathItem key : Value} {es : Entries} {collection : Collection}

/-! ## Operations -/

theorem endsWell_fieldOf {name : String} (hrecord : isRecord v = true)
    (hpresent : v.isNull = false) : EndsWell (fieldOf v name) := by
  obtain ⟨entries, rfl⟩ := exists_map_of_isRecord hrecord hpresent
  trivial

theorem endsWell_memberOf {name : String} (hrecord : isRecord v = true)
    (hpresent : v.isNull = false) : EndsWell (memberOf v (.str name)) := by
  obtain ⟨entries, rfl⟩ := exists_map_of_isRecord hrecord hpresent
  trivial

theorem memberOf_eq_memberIn {name : String} (hread : memberOf v (.str name) = .ok declaration) :
    declaration = memberIn v name := by
  obtain ⟨entries, hentries, hget⟩ := bind_eq_ok_iff.mp hread
  obtain rfl := entriesOf_eq_ok_iff.mp hentries
  cases hget
  rfl

theorem endsWell_operationShape (hpathText : pathItem.hasTextKeys = true)
    (hpathItem : pathItemIsShaped pathItem = true) (hpathPresent : pathItem.isNull = false)
    (hpathQuotable : ∀ d ∈ declarations (memberIn pathItem "parameters"),
      locationIsQuotable d = true)
    (htext : declaration.hasTextKeys = true) (hshaped : operationIsShaped declaration = true)
    (hpresent : declaration.isNull = false)
    (hquotable : ∀ d ∈ declarations (memberIn declaration "parameters"),
      locationIsQuotable d = true) :
    EndsWell (operationShape pathItem declaration).outcome := by
  simp only [pathItemIsShaped, Bool.and_eq_true] at hpathItem
  obtain ⟨⟨hpathRecord, hpathParameters⟩, -⟩ := hpathItem
  simp only [operationIsShaped, Bool.and_eq_true, List.all_eq_true] at hshaped
  obtain ⟨⟨⟨⟨hrecord, hparameters⟩, hbody⟩, hresponses⟩, hall⟩ := hshaped
  obtain ⟨pathEntries, rfl⟩ := exists_map_of_isRecord hpathRecord hpathPresent
  obtain ⟨entries, rfl⟩ := exists_map_of_isRecord hrecord hpresent
  simp only [operationShape, mergeParameters, requestSchema, responsesSchema, fieldOf_map,
    Traced.outcome_bind, Traced.outcome_lift, Traced.outcome_pure, ok_bind, ← memberIn_map]
  refine EndsWell.andThen ?_ fun _ _ => ?_
  · refine (endsWell_resolveParameters (hasTextKeys_inherited.memberIn htext) hparameters hquotable).andThen
      fun _ _ => ?_
    exact (endsWell_resolveParameters (hasTextKeys_inherited.memberIn hpathText) hpathParameters
      hpathQuotable).andThen fun _ _ => trivial
  refine (endsWell_resolveBody (hasTextKeys_inherited.memberIn htext) hbody).andThen fun _ _ => ?_
  exact (endsWell_resolveResponses (hasTextKeys_inherited.memberIn htext) hresponses hall).andThen
    fun _ _ => trivial

/-! ## Members of a collection -/

section Collection

variable (hshaped : isWellShaped document = true)

include hshaped

theorem endsWell_collectionOf : EndsWell (collectionOf collection document) := by
  obtain ⟨hrecord, -⟩ := isWellShaped_iff.mp hshaped
  unfold collectionOf
  split
  · exact isReport_ofBuild rfl
  · rename_i hpresent
    exact endsWell_fieldOf hrecord (by simpa using hpresent)

theorem endsWell_item {name : String} : EndsWell (item collection document (.str name)) := by
  obtain ⟨-, -, hcollections, -⟩ := isWellShaped_iff.mp hshaped
  unfold item
  refine endsWell_guard (fun _ => isReport_ofBuild rfl) fun _ => ?_
  refine (endsWell_collectionOf hshaped).andThen fun declared hdeclared => ?_
  refine endsWell_guard (fun _ => isReport_ofBuild rfl) fun hpresent => ?_
  have hrecord : isRecord declared = true := by
    rw [collectionOf_eq_memberIn hdeclared]
    exact (Bool.and_eq_true_iff.mp (hcollections collection)).1
  have habsent : (BuildError.mk (.noItem collection) (.str name) .null
      (.str collection.field)).isTellable = true := by
    simp [BuildError.isTellable, BuildCause.isTellable, Value.truthy, Value.asText?]
  split
  · exact isReport_ofBuild habsent
  · refine (endsWell_memberOf hrecord hpresent).andThen fun found _ => ?_
    exact endsWell_guard (fun _ => isReport_ofBuild habsent) fun _ => trivial

/-- A member that is found is an entry of its collection, so it is shaped as one. -/
theorem shaped_of_item {name : String}
    (hitem : item collection document (.str name) = .ok pathItem) :
    (.str name, pathItem) ∈ entriesIn (memberIn document collection.field) ∧
      pathItem.isNull = false ∧ pathItem.hasTextKeys = true ∧ pathItemIsShaped pathItem = true := by
  obtain ⟨-, htext, hcollections, -⟩ := isWellShaped_iff.mp hshaped
  obtain ⟨-, hextension, declared, hdeclared, -, hmember, hpresent⟩ := item_eq_ok_iff.mp hitem
  obtain rfl := collectionOf_eq_memberIn hdeclared
  have hentry : (.str name, pathItem) ∈ entriesIn (memberIn document collection.field) :=
    mem_of_fieldD (memberOf_eq_memberIn hmember).symm hpresent
  have hkeys := hasTextKeys_inherited.of_mem_entriesIn (hasTextKeys_inherited.memberIn htext) hentry
  have hall := List.all_eq_true.mp (Bool.and_eq_true_iff.mp (hcollections collection)).2 _ hentry
  rw [hextension, Bool.false_or] at hall
  exact ⟨hentry, hpresent, hkeys, hall⟩

theorem endsWell_items : EndsWell (items collection document) := by
  obtain ⟨-, -, hcollections, -⟩ := isWellShaped_iff.mp hshaped
  refine (endsWell_collectionOf hshaped).andThen fun declared hdeclared => ?_
  obtain rfl := collectionOf_eq_memberIn hdeclared
  rw [entriesIfAny_of_isRecord (Bool.and_eq_true_iff.mp (hcollections collection)).1]
  trivial

/-- The members that are listed have texts as keys. -/
theorem text_of_items {listed : Entries} (hlisted : items collection document = .ok listed) :
    ∀ entry ∈ listed, ∃ name, entry.1 = .str name := by
  obtain ⟨-, htext, -, -⟩ := isWellShaped_iff.mp hshaped
  intro entry hentry
  exact exists_text_of_mem_entriesIn (hasTextKeys_inherited.memberIn htext)
    (mem_of_items hlisted hentry)

variable (hquotable : LocationsAreQuotable document)

include hquotable

theorem endsWell_operationSchema {name method : String} (hmethod : method ∈ methodNames) :
    EndsWell (operationSchema collection document (.str name) (.str method)).outcome := by
  simp only [operationSchema, buildOperation, Traced.outcome_bind, Traced.outcome_pure]
  refine EndsWell.andThen ?_ fun _ _ => trivial
  split
  · exact isReport_ofBuild rfl
  simp only [Traced.outcome_bind, Traced.outcome_lift, Traced.outcome_note,
    Traced.outcome_mapError, ok_bind]
  -- The operation is looked up first; what is found is shaped because its path item is.
  have hlookup : EndsWell (operation collection document (.str name) (.str method)) := by
    unfold operation
    refine endsWell_guard (fun hnull => by simp [Value.isNull] at hnull) fun _ => ?_
    refine (endsWell_item hshaped).andThen fun found hfound => ?_
    obtain ⟨-, hpresent, -, hfoundShaped⟩ := shaped_of_item hshaped hfound
    simp only [pathItemIsShaped, Bool.and_eq_true] at hfoundShaped
    refine (endsWell_memberOf hfoundShaped.1.1 hpresent).andThen fun _ _ => ?_
    refine endsWell_guard (fun _ => isReport_ofBuild ?_) fun _ => trivial
    simp [BuildError.isTellable, BuildCause.isTellable, Value.truthy, Value.asText?]
  refine hlookup.andThen fun found hfound => ?_
  obtain ⟨pathItem, declaration⟩ := found
  obtain ⟨-, hitem, hmember, hpresent⟩ := operation_eq_ok_iff.mp hfound
  obtain ⟨hentry, hpathPresent, hpathText, hpathItem⟩ := shaped_of_item hshaped hitem
  obtain rfl := memberOf_eq_memberIn hmember
  have hoperation : operationIsShaped (memberIn pathItem method) = true := by
    simp only [pathItemIsShaped, Bool.and_eq_true] at hpathItem
    exact List.all_eq_true.mp hpathItem.2 method hmethod
  apply EndsWell.mapError ?_ fun _ => IsReport.locate
  apply endsWell_operationShape hpathText hpathItem hpathPresent
  · intro d hd
    exact hquotable d (.pathItem hentry hd)
  · exact hasTextKeys_inherited.memberIn hpathText
  · exact hoperation
  · exact hpresent
  · intro d hd
    exact hquotable d (.operation hentry hd)

theorem endsWell_addOperations {name : String} {methods : List String}
    (hmethods : ∀ method ∈ methods, method ∈ methodNames) (base : ObjectNode Node) :
    EndsWell (addOperations collection document (.str name) base methods).outcome := by
  induction methods generalizing base with
  | nil => trivial
  | cons method rest ih =>
      rw [addOperations, Traced.outcome_bind]
      refine (endsWell_operationSchema hshaped hquotable
        (hmethods method List.mem_cons_self)).andThen fun _ _ => ?_
      exact ih (fun other hother => hmethods other (List.mem_cons_of_mem _ hother)) _

omit hshaped hquotable in
/-- Only methods of the format are listed. -/
theorem mem_methodNames_of_methods {listed : List String} (hlisted : methods pathItem = .ok listed)
    {method : String} (hmethod : method ∈ listed) : method ∈ methodNames := by
  obtain ⟨entries, -, heq⟩ := bind_eq_ok_iff.mp hlisted
  cases heq
  obtain ⟨entry, -, hentry⟩ := List.mem_filterMap.mp hmethod
  unfold methodOf? at hentry
  split at hentry
  · split at hentry
    · rename_i hname
      cases hentry
      rw [Bool.and_eq_true, List.contains_iff_mem] at hname
      exact hname.1
    · cases hentry
  · cases hentry

theorem endsWell_itemSchema {name : String} :
    EndsWell (itemSchema collection document (.str name)).outcome := by
  unfold itemSchema
  split
  · exact isReport_ofBuild rfl
  simp only [Traced.outcome_bind, Traced.outcome_lift]
  refine (endsWell_item hshaped).andThen fun found hfound => ?_
  obtain ⟨-, hpresent, -, hpathItem⟩ := shaped_of_item hshaped hfound
  have hmethods : EndsWell (methods found) := by
    simp only [pathItemIsShaped, Bool.and_eq_true] at hpathItem
    obtain ⟨entries, rfl⟩ := exists_map_of_isRecord hpathItem.1.1 hpresent
    trivial
  refine hmethods.andThen fun listed hlisted => ?_
  exact endsWell_addOperations hshaped hquotable
    (fun _ hmethod => mem_methodNames_of_methods hlisted hmethod) _

theorem endsWell_addItems {listed : Entries}
    (htext : ∀ entry ∈ listed, ∃ name, entry.1 = .str name) (base : ObjectNode Node) :
    EndsWell (addItems collection document base listed).outcome := by
  induction listed generalizing base with
  | nil => trivial
  | cons entry rest ih =>
      obtain ⟨name, hname⟩ := htext entry List.mem_cons_self
      rw [addItems, Traced.outcome_bind, hname]
      refine (endsWell_itemSchema hshaped hquotable).andThen fun _ _ => ?_
      exact ih (fun other hother => htext other (List.mem_cons_of_mem _ hother)) _

end Collection

/-! ## Components -/

theorem endsWell_componentNode {kind : ComponentKind} {name : String}
    (htext : declaration.hasTextKeys = true) (hshaped : componentIsShaped kind declaration = true)
    (hquotable : kind = .parameters → locationIsQuotable declaration = true) :
    EndsWell (componentNode kind (.str name) declaration) := by
  cases kind with
  | schemas => trivial
  | responses =>
      rw [componentNode]
      split
      · exact isReport_ofBuild rfl
      · exact (endsWell_resolveResponse htext hshaped).map
  | parameters => exact (endsWell_resolveParameter htext hshaped (hquotable rfl)).map
  | requestBodies =>
      rw [componentNode]
      split
      · exact isReport_ofBuild rfl
      · exact (endsWell_resolveBody htext hshaped).map
  | headers => exact (endsWell_resolveHeader htext hshaped).map

theorem endsWell_componentNodes {kind : ComponentKind} {members : Entries}
    (hmembers : ∀ entry ∈ members, ∃ name, entry.1 = .str name ∧
      EndsWell (componentNode kind (.str name) entry.2)) :
    EndsWell (componentNodes kind members) := by
  induction members with
  | nil => trivial
  | cons entry rest ih =>
      obtain ⟨name, hname, hnode⟩ := hmembers entry List.mem_cons_self
      rw [componentNodes, hname]
      refine hnode.andThen fun _ _ => ?_
      exact (ih fun other hother => hmembers other (List.mem_cons_of_mem _ hother)).andThen
        fun _ _ => trivial

theorem endsWell_tokenEntry {field members : Value} (htext : members.hasTextKeys = true)
    (hshaped : kindIsShaped field members = true)
    (hquotable : field = .str ComponentKind.parameters.name → ∀ entry ∈ entriesIn members,
      locationIsQuotable entry.2 = true) :
    EndsWell (tokenEntry field members).outcome := by
  unfold tokenEntry
  unfold kindIsShaped at hshaped
  cases hkind : ComponentKind.ofName? field with
  | none => trivial
  | some kind =>
      simp only [hkind, Bool.and_eq_true, List.all_eq_true] at hshaped
      obtain ⟨hrecord, hall⟩ := hshaped
      dsimp only
      split
      · trivial
      rename_i htruthy
      obtain ⟨entries, rfl⟩ := exists_map_of_truthy hrecord (by simpa using htruthy)
      simp only [Traced.outcome_bind, Traced.outcome_lift, Traced.outcome_note,
        Traced.outcome_pure]
      refine EndsWell.andThen ?_ fun _ _ => trivial
      refine endsWell_componentNodes fun entry hentry => ?_
      obtain ⟨name, hname⟩ := exists_text_of_mem_entriesIn htext hentry
      have hkeys := hasTextKeys_inherited.of_mem_entriesIn htext hentry
      refine ⟨name, hname, endsWell_componentNode hkeys (hall entry hentry) ?_⟩
      rintro rfl
      exact hquotable (ComponentKind.eq_str_of_ofName? hkind) entry hentry

theorem endsWell_tokenOfEntries {entries : Entries}
    (hall : ∀ entry ∈ entries, EndsWell (tokenEntry entry.1 entry.2).outcome) :
    EndsWell (tokenOfEntries entries).outcome := by
  induction entries with
  | nil => trivial
  | cons entry rest ih =>
      rw [tokenOfEntries, Traced.outcome_bind]
      refine (hall entry List.mem_cons_self).andThen fun _ _ => ?_
      rw [Traced.outcome_bind]
      exact (ih fun other hother => hall other (List.mem_cons_of_mem _ hother)).andThen
        fun _ _ => trivial

/-! ## Roots -/

section Roots

variable (hshaped : isWellShaped document = true) (hquotable : LocationsAreQuotable document)

include hshaped hquotable

theorem endsWell_componentsToken : EndsWell (componentsToken document).outcome := by
  obtain ⟨hrecord, htext, -, hcomponents⟩ := isWellShaped_iff.mp hshaped
  simp only [componentsAreShaped, Bool.and_eq_true, List.all_eq_true] at hcomponents
  unfold componentsToken
  split
  · exact isReport_ofBuild rfl
  rename_i hpresent
  obtain ⟨entries, rfl⟩ := exists_map_of_isRecord hrecord (by simpa using hpresent)
  simp only [Traced.outcome_bind, Traced.outcome_lift, fieldOf_map, ok_bind, ← memberIn_map,
    entriesIfAny_of_isRecord hcomponents.1]
  refine endsWell_tokenOfEntries fun entry hentry => ?_
  have hkeys := hasTextKeys_inherited.of_mem_entriesIn (hasTextKeys_inherited.memberIn htext) hentry
  apply endsWell_tokenEntry hkeys (hcomponents.2 entry hentry)
  intro hparameters member hmember
  exact hquotable _ (.component (hparameters ▸ hentry) hmember)

theorem endsWell_buildTree : EndsWell (buildTree collection document).outcome := by
  simp only [buildTree, Traced.outcome_bind, Traced.outcome_lift]
  refine (endsWell_componentsToken hshaped hquotable).andThen fun _ _ => ?_
  refine (endsWell_collectionOf hshaped).andThen fun declared _ => ?_
  split
  · trivial
  simp only [Traced.outcome_bind, Traced.outcome_lift, Traced.outcome_note, Traced.outcome_pure]
  refine (endsWell_items hshaped).andThen fun listed hlisted => ?_
  exact (endsWell_addItems hshaped hquotable (text_of_items hshaped hlisted) _).andThen
    fun _ _ => trivial

theorem endsWell_buildRoots : EndsWell (buildRoots document).outcome := by
  simp only [buildRoots, Traced.outcome_bind, Traced.outcome_pure]
  refine (endsWell_buildTree hshaped hquotable).andThen fun _ _ => ?_
  refine (endsWell_buildTree hshaped hquotable).andThen fun _ _ => ?_
  exact (endsWell_componentsToken hshaped hquotable).andThen fun _ _ => trivial

/-- Building the roots of a well-shaped description gives the roots or reports a failure; nothing
else happens, as long as the location of every declared parameter can stand in a message. -/
theorem buildRoots_returns_or_reports :
    (∃ roots, (buildRoots document).outcome = .ok roots) ∨
      ∃ e : BuildError, (buildRoots document).outcome = .error (.build e) := by
  have hends := endsWell_buildRoots hshaped hquotable
  cases hbuilt : (buildRoots document).outcome with
  | ok roots => exact Or.inl ⟨roots, rfl⟩
  | error fault =>
      rw [hbuilt] at hends
      obtain ⟨e, -, rfl⟩ := hends
      exact Or.inr ⟨e, rfl⟩

end Roots

/-- A description of one parameter, whose location is given. -/
def withLocation (location : Value) : Value :=
  .map [(.str "components", .map [(.str "parameters", .map [(.str "q",
    .map [(.str "name", .str "q"), (.str "in", location), (.str "schema", .map [])])])])]

theorem misplacedParameter_returns_or_reports :
    isWellShaped (withLocation (.str "body")) = true ∧
      LocationsAreQuotable (withLocation (.str "body")) ∧
      ((∃ roots, (buildRoots (withLocation (.str "body"))).outcome = .ok roots) ∨
        ∃ e : BuildError, (buildRoots (withLocation (.str "body"))).outcome =
          .error (.build e)) := by
  have hshaped : isWellShaped (withLocation (.str "body")) = true := by decide +kernel
  have hquotable : LocationsAreQuotable (withLocation (.str "body")) :=
    locationsAreQuotable_of_isQuotable (by decide +kernel)
  exact ⟨hshaped, hquotable, buildRoots_returns_or_reports hshaped hquotable⟩

/-- A whole number that is too long to be quoted, as a location. -/
theorem outcome_withLocation_of_oversized {n : Int} (hoversized : Json.isWritableInt n = false) :
    (buildRoots (withLocation (.int n))).outcome = .error .misfit := by
  have hin : Entries.fieldD [(.str "name", .str "q"), (.str "in", .int n),
      (.str "schema", .map [])] "in" = .int n := by
    simp [Entries.fieldD, Entries.field?, Entries.get?]
  have hparameter : resolveParameter (.map [(.str "name", .str "q"), (.str "in", .int n),
      (.str "schema", .map [])]) = .error .misfit := by
    apply resolveParameter_of_unquotable "q"
    · simp [Entries.fieldD, Entries.field?, Entries.get?]
    · rw [hin]
      rfl
    · rw [hin, Value.isQuotable, hoversized]
  -- The components are read before anything else.
  have htoken : (componentsToken (withLocation (.int n))).outcome = .error .misfit := by
    simp [componentsToken, withLocation, Value.isNull, ok_bind, Entries.fieldD, Entries.field?,
      Entries.get?, entriesIfAny, Value.truthy, entriesOf, Value.asMap?, orMisfit, tokenOfEntries,
      tokenEntry, ComponentKind.ofName?, ComponentKind.all, ComponentKind.name, componentNodes,
      componentNode, hparameter]
    rfl
  rw [buildRoots, buildTree, Traced.outcome_bind, Traced.outcome_bind, htoken]
  rfl

theorem oversizedLocation_neither_returns_nor_reports :
    isWellShaped (withLocation (.int (Nat.pow 16 3600))) = true ∧
      ¬((∃ roots, (buildRoots (withLocation (.int (Nat.pow 16 3600)))).outcome = .ok roots) ∨
        ∃ e : BuildError, (buildRoots (withLocation (.int (Nat.pow 16 3600)))).outcome =
          .error (.build e)) := by
  have hshaped : isWellShaped (withLocation (.int (Nat.pow 16 3600))) = true := by decide +kernel
  have hoversized : Json.isWritableInt (Nat.pow 16 3600) = false := by decide +kernel
  refine ⟨hshaped, ?_⟩
  rw [outcome_withLocation_of_oversized hoversized]
  rintro (⟨roots, ⟨⟩⟩ | ⟨e, ⟨⟩⟩)

end ApiContract.Schema
