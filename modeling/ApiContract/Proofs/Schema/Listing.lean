import ApiContract.Proofs.Failing
import ApiContract.Proofs.Schema.Lookup
import ApiContract.Proofs.Schema.Unambiguous
import ApiContract.Proofs.Value.Document
import ApiContract.Schema.PathItem

/-!
# Listing and look-up

The members of a collection are reached in two ways: they are listed in order, and each is looked up
under its key.  A look-up finds exactly what is listed.  The operations of a member are listed by
their methods, and a look-up takes the field that is named like the method.
-/

namespace ApiContract

namespace Schema

variable {collection : Collection} {document key pathItem declaration : Value} {declared : Entries}

/-- A member of a collection is listed under a key that is the same as the given one. -/
def IsListed (collection : Collection) (document key pathItem : Value) : Prop :=
  ∃ listed, items collection document = .ok listed ∧
    ∃ entry ∈ listed, entry.1.same key = true ∧ entry.2 = pathItem

theorem isExtension_eq_of_same {left right : Value} (hsame : left.same right = true) :
    isExtension left = isExtension right := by
  cases right with
  | str s => rw [Value.eq_str_of_same hsame]
  | _ =>
      cases left with
      | str s => simp [Value.same] at hsame
      | _ => rfl

theorem isNull_eq_of_same {left right : Value} (hsame : left.same right = true) :
    left.isNull = right.isNull := by
  cases left <;> cases right <;> simp_all [Value.same, Value.isNull]

/-! ## Members -/

section Members

variable (hdeclared : collectionOf collection document = .ok (.map declared))

include hdeclared

theorem items_of_declared : items collection document = .ok (listedItems declared) := by
  have hentries : entriesIfAny (.map declared) = .ok declared := by
    cases declared <;> rfl
  simp only [items, hdeclared, ok_bind, hentries]
  rfl

theorem isListed_iff_of_declared :
    IsListed collection document key pathItem ↔
      ∃ entry ∈ listedItems declared, entry.1.same key = true ∧ entry.2 = pathItem := by
  rw [IsListed, items_of_declared hdeclared]
  simp

theorem item_of_not_isKey (hkey : key.isKey = false) :
    item collection document key = .error .misfit := by
  have hget : memberOf (.map declared) key = .error .misfit :=
    if_neg (Bool.eq_false_iff.mp hkey)
  have hcollection : (Value.map declared).isNull = false := rfl
  have hpresent : key.isNull = false := by cases key <;> first | rfl | cases hkey
  have hextension : isExtension key = false := by cases key <;> first | rfl | cases hkey
  simp only [item, hpresent, hextension, hdeclared, hcollection, hget, ok_bind, Bool.false_eq_true,
    if_false]
  rfl

variable (hkey : key.isKey = true) (hpresent : key.isNull = false)

include hkey hpresent

theorem item_of_declared :
    item collection document key =
      let found := if isExtension key then .null else (Entries.get? declared key).getD .null
      if found.isNull then .error (.ofBuild
        { cause := .noItem collection, path := key, field := .str collection.field })
      else .ok found := by
  have hget : memberOf (.map declared) key = .ok ((Entries.get? declared key).getD .null) :=
    if_pos hkey
  have hcollection : (Value.map declared).isNull = false := rfl
  simp only [item, hpresent, hdeclared, hcollection, hget, ok_bind, Bool.false_eq_true, if_false]
  cases isExtension key with
  | true => rfl
  | false => cases (Entries.get? declared key).getD .null <;> rfl

variable (htable : declared.IsTable)

include htable

/-- A look-up under a key that is not null finds exactly what is listed under it. -/
theorem item_eq_ok_iff_isListed :
    item collection document key = .ok pathItem ↔ IsListed collection document key pathItem := by
  rw [item_of_declared hdeclared hkey hpresent, isListed_iff_of_declared hdeclared]
  dsimp only
  constructor
  · intro hitem
    cases hextension : isExtension key with
    | true => simp [hextension, Value.isNull] at hitem
    | false =>
        cases hget : Entries.get? declared key with
        | none => simp [hextension, hget, Value.isNull] at hitem
        | some found =>
            simp only [hextension, hget, Bool.false_eq_true, if_false, Option.getD_some] at hitem
            split at hitem
            · cases hitem
            · rename_i hfound
              cases hitem
              obtain ⟨entry, hentry, hsame, rfl⟩ := (htable.get?_eq_some_iff hkey).mp hget
              refine ⟨entry, List.mem_filter.mpr ⟨hentry, ?_⟩, hsame, rfl⟩
              rw [isExtension_eq_of_same hsame, hextension, Bool.eq_false_iff.mpr hfound]
              rfl
  · rintro ⟨entry, hentry, hsame, rfl⟩
    obtain ⟨hmem, hlisted⟩ := List.mem_filter.mp hentry
    simp only [Bool.and_eq_true, Bool.not_eq_true'] at hlisted
    have hget := (htable.get?_eq_some_iff hkey).mpr ⟨entry, hmem, hsame, rfl⟩
    rw [← isExtension_eq_of_same hsame, hlisted.2, hget]
    simp [hlisted.1]

omit hkey hpresent in
/-- A listed member is found under the key that it is listed under. -/
theorem item_of_mem_listedItems {entry : Value × Value} (hentry : entry ∈ listedItems declared)
    (hlisted : entry.1.isNull = false) : item collection document entry.1 = .ok entry.2 := by
  have hentryKey := htable.areKeys entry (List.mem_filter.mp hentry).1
  rw [item_eq_ok_iff_isListed hdeclared hentryKey hlisted htable, isListed_iff_of_declared hdeclared]
  exact ⟨entry, hentry, Value.same_self_of_isKey hentryKey, rfl⟩

/-- What is not listed is absent. -/
theorem item_of_not_isListed (hlisted : ∀ pathItem, ¬ IsListed collection document key pathItem) :
    item collection document key = .error (.ofBuild
      { cause := .noItem collection, path := key, field := .str collection.field }) := by
  have hequation := item_of_declared hdeclared hkey hpresent
  by_cases hnull : (if isExtension key then Value.null
      else (Entries.get? declared key).getD .null).isNull = true
  · exact hequation.trans (if_pos hnull)
  · have hfound := hequation.trans (if_neg hnull)
    exact absurd ((item_eq_ok_iff_isListed hdeclared hkey hpresent htable).mp hfound) (hlisted _)

end Members

/-! ## Operations -/

theorem memberOf_str_eq_fieldOf (v : Value) (name : String) :
    memberOf v (.str name) = fieldOf v name := by
  cases v <;> rfl

/-- A method is listed exactly if the field of its name is not null. -/
theorem mem_methods_iff {fields : Entries} {names : List String} (htable : fields.IsTable)
    (hnames : methods (.map fields) = .ok names) {method : String} :
    method ∈ names ↔ method ∈ methodNames ∧ (Entries.fieldD fields method).isNull = false := by
  cases hnames
  rw [List.mem_filterMap]
  constructor
  · rintro ⟨entry, hentry, hmethod⟩
    unfold methodOf? at hmethod
    split at hmethod
    · split at hmethod
      · rename_i hname
        cases hmethod
        simp only [Bool.and_eq_true, List.contains_iff_mem, Bool.not_eq_true'] at hname
        rw [Entries.fieldD, htable.differ.field?_of_mem hentry]
        exact hname
      · cases hmethod
    · cases hmethod
  · rintro ⟨hname, hpresent⟩
    refine ⟨_, mem_of_fieldD rfl hpresent, ?_⟩
    rw [methodOf?, if_pos]
    rw [hpresent, List.contains_iff_mem.mpr hname]
    rfl

end Schema

end ApiContract
