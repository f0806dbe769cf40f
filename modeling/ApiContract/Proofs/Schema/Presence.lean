import ApiContract.Proofs.ExitCodes
import ApiContract.Proofs.Schema.Listing

/-!
# Builders look for what is there

The builders of whole documents look members and operations up under the keys and the methods that
are listed.  In a document everything that is listed is found, so no look-up of theirs fails for an
absence; only a key that is null is refused, as an argument that is not provided.
-/

namespace ApiContract.Schema

variable {collection : Collection} {document key pathItem declaration : Value} {listed : Entries}

/-! ## What is listed is found -/

/-- Members are listed only where a mapping declares them. -/
theorem exists_declared_of_items {entry : Value × Value}
    (hlisted : items collection document = .ok listed) (hentry : entry ∈ listed) :
    ∃ declared, collectionOf collection document = .ok (.map declared) ∧
      listed = listedItems declared := by
  obtain ⟨found, hfound, hlisted⟩ := bind_eq_ok_iff.mp hlisted
  obtain ⟨declared, hdeclared, hlisted⟩ := bind_eq_ok_iff.mp hlisted
  cases hlisted
  unfold entriesIfAny at hdeclared
  split at hdeclared
  · obtain rfl := entriesOf_eq_ok_iff.mp hdeclared
    exact ⟨declared, hfound, rfl⟩
  · cases hdeclared
    simp [listedItems] at hentry

theorem isDocument_of_collectionOf {declared : Value} (hdocument : document.IsDocument)
    (hfound : collectionOf collection document = .ok declared) : declared.IsDocument := by
  rw [collectionOf_eq_memberIn hfound]
  exact isDocument_inherited.memberIn hdocument

theorem isDocument_of_mem_items {entry : Value × Value} (hdocument : document.IsDocument)
    (hlisted : items collection document = .ok listed) (hentry : entry ∈ listed) :
    entry.2.IsDocument :=
  isDocument_inherited.of_mem_entriesIn (isDocument_inherited.memberIn hdocument)
    (mem_of_items hlisted hentry)

/-- A listed member is found under its key, unless the key is null. -/
theorem item_of_mem_items {entry : Value × Value} (hdocument : document.IsDocument)
    (hlisted : items collection document = .ok listed) (hentry : entry ∈ listed)
    (hpresent : entry.1.isNull = false) : item collection document entry.1 = .ok entry.2 := by
  obtain ⟨declared, hdeclared, rfl⟩ := exists_declared_of_items hlisted hentry
  have htable := (Value.isDocument_map_iff.mp (isDocument_of_collectionOf hdocument hdeclared)).1
  exact item_of_mem_listedItems hdeclared htable hentry hpresent

/-- A listed operation is found under its method. -/
theorem operation_of_mem_methods {names : List String} {method : String}
    (hitem : item collection document key = .ok pathItem) (hpathItem : pathItem.IsDocument)
    (hnames : methods pathItem = .ok names) (hmethod : method ∈ names) :
    ∃ declaration, operation collection document key (.str method) = .ok (pathItem, declaration) ∧
      fieldOf pathItem method = .ok declaration := by
  obtain ⟨fields, hfields, -⟩ := bind_eq_ok_iff.mp hnames
  obtain rfl := entriesOf_eq_ok_iff.mp hfields
  have htable := (Value.isDocument_map_iff.mp hpathItem).1
  have hdeclared := ((mem_methods_iff htable hnames).mp hmethod).2
  exact ⟨_, operation_eq_ok_iff.mpr ⟨rfl, hitem, memberOf_map fields method, hdeclared⟩, rfl⟩

/-! ## Builders -/

/-- Once an operation is found, its schema can fail for what it declares only. -/
theorem ordinary_operationSchema {method : String}
    (hfound : operation collection document key (.str method) = .ok (pathItem, declaration)) :
    Ordinary (operationSchema collection document key (.str method)).outcome := by
  unfold operationSchema buildOperation
  rw [Traced.outcome_bind]
  refine FailsOnly.andThen ?_ fun _ => .ok _
  refine failsOnly_stage_guard (isOrdinary_notProvided _) ?_
  simp only [Traced.outcome_bind, Traced.outcome_lift, hfound, ok_bind]
  exact (unplaced_operationShape pathItem declaration).ordinary.mapError
    fun _ hfault => hfault.locate key (.str method)

theorem ordinary_addOperations {names : List String} (base : ObjectNode Node)
    (hfound : ∀ method ∈ names, ∃ declaration,
      operation collection document key (.str method) = .ok (pathItem, declaration)) :
    Ordinary (addOperations collection document key base names).outcome := by
  induction names generalizing base with
  | nil => exact .ok _
  | cons method rest ih =>
      obtain ⟨⟨declaration, hmethod⟩, hrest⟩ := List.forall_mem_cons.mp hfound
      rw [addOperations, Traced.outcome_bind]
      exact (ordinary_operationSchema hmethod).andThen fun _ => ih _ hrest

theorem ordinary_itemSchema (hitem : item collection document key = .ok pathItem)
    (hpathItem : pathItem.IsDocument) :
    Ordinary (itemSchema collection document key).outcome := by
  unfold itemSchema
  refine failsOnly_stage_guard (isOrdinary_notProvided _) ?_
  simp only [Traced.outcome_bind, Traced.outcome_lift, hitem, ok_bind]
  have hmethods : Ordinary (methods pathItem) :=
    (unplaced_entriesOf pathItem).ordinary.andThen fun _ => .ok _
  refine hmethods.bind fun names hnames => ?_
  have hfound : ∀ method ∈ names, ∃ declaration,
      operation collection document key (.str method) = .ok (pathItem, declaration) := by
    intro method hmethod
    obtain ⟨declaration, hfound, -⟩ := operation_of_mem_methods hitem hpathItem hnames hmethod
    exact ⟨declaration, hfound⟩
  exact ordinary_addOperations _ hfound

/-- A key that is null is refused. -/
theorem ordinary_itemSchema_of_isNull (hnull : key.isNull = true) :
    Ordinary (itemSchema collection document key).outcome := by
  unfold itemSchema
  refine failsOnly_stage_guard (isOrdinary_notProvided _) ?_
  have hitem : item collection document key = .error (notProvided collection.label) := by
    unfold item
    rw [if_pos hnull]
    rfl
  rw [Traced.outcome_bind, Traced.outcome_lift, hitem]
  exact .error (isOrdinary_notProvided _)

theorem ordinary_addItems {entries : Entries} (base : ObjectNode Node)
    (hitems : ∀ entry ∈ entries, entry.2.IsDocument ∧
      (entry.1.isNull = false → item collection document entry.1 = .ok entry.2)) :
    Ordinary (addItems collection document base entries).outcome := by
  induction entries generalizing base with
  | nil => exact .ok _
  | cons entry rest ih =>
      obtain ⟨⟨hvalue, hfound⟩, hrest⟩ := List.forall_mem_cons.mp hitems
      rw [addItems, Traced.outcome_bind]
      refine FailsOnly.andThen ?_ fun _ => ih _ hrest
      cases hnull : entry.1.isNull with
      | true => exact ordinary_itemSchema_of_isNull hnull
      | false => exact ordinary_itemSchema (hfound hnull) hvalue

theorem ordinary_buildTree (collection : Collection) (hdocument : document.IsDocument) :
    Ordinary (buildTree collection document).outcome := by
  rw [buildTree, Traced.outcome_bind]
  refine (ordinary_componentsToken _).andThen fun token => ?_
  rw [Traced.outcome_bind, Traced.outcome_lift]
  refine (ordinary_collectionOf _ _).andThen fun declaration => ?_
  split
  · exact .ok _
  · simp only [Traced.outcome_bind, Traced.outcome_lift]
    refine (ordinary_items _ _).bind fun listed hlisted => ?_
    refine FailsOnly.andThen ?_ fun _ => .ok _
    exact ordinary_addItems _ fun entry hentry =>
      ⟨isDocument_of_mem_items hdocument hlisted hentry,
        item_of_mem_items hdocument hlisted hentry⟩

theorem ordinary_buildRoots (hdocument : document.IsDocument) :
    Ordinary (buildRoots document).outcome := by
  simp only [buildRoots, Traced.outcome_bind]
  refine (ordinary_buildTree _ hdocument).andThen fun _ => ?_
  refine (ordinary_buildTree _ hdocument).andThen fun _ => ?_
  exact (ordinary_componentsToken _).andThen fun _ => .ok _

end ApiContract.Schema
