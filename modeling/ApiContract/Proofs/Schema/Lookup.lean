import ApiContract.Proofs.Schema.DeclaredParameter
import ApiContract.Schema.PathItem

/-!
# When a look-up finds something

A member of a collection is found under a key that is no extension, and an operation under a method
of the member.  Neither is found where the description has nothing or null.
-/

namespace ApiContract.Schema

variable {collection : Collection} {document key method pathItem declaration v : Value}

@[simp] theorem fieldOf_map (es : Entries) (name : String) :
    fieldOf (.map es) name = .ok (Entries.fieldD es name) := rfl

@[simp] theorem memberOf_map (es : Entries) (name : String) :
    memberOf (.map es) (.str name) = .ok (Entries.fieldD es name) := rfl

theorem collectionOf_eq_memberIn (hread : collectionOf collection document = .ok v) :
    v = memberIn document collection.field := by
  unfold collectionOf at hread
  split at hread
  · cases hread
  · exact (memberIn_of_fieldOf hread).symm

/-- What is listed is declared. -/
theorem mem_of_items {listed : Entries} {entry : Value × Value}
    (hlisted : items collection document = .ok listed) (hentry : entry ∈ listed) :
    entry ∈ entriesIn (memberIn document collection.field) := by
  obtain ⟨declared, hdeclared, hlisted⟩ := bind_eq_ok_iff.mp hlisted
  obtain ⟨entries, hentries, hlisted⟩ := bind_eq_ok_iff.mp hlisted
  obtain rfl := collectionOf_eq_memberIn hdeclared
  obtain rfl := entriesIn_of_entriesIfAny hentries
  cases hlisted
  exact (List.mem_filter.mp hentry).1

theorem item_eq_ok_iff :
    item collection document key = .ok pathItem ↔
      key.isNull = false ∧ isExtension key = false ∧ ∃ declared,
        collectionOf collection document = .ok declared ∧ declared.isNull = false ∧
          memberOf declared key = .ok pathItem ∧ pathItem.isNull = false := by
  unfold item
  simp only [bind_eq_ok_iff, guard_eq_ok_iff]
  constructor
  · rintro ⟨hkey, declared, hdeclared, hnull, hfound⟩
    cases hextension : isExtension key with
    | true =>
        simp only [hextension, if_true, bind_eq_ok_iff, guard_eq_ok_iff] at hfound
        obtain ⟨_, ⟨⟩, habsent, -⟩ := hfound
        cases habsent
    | false =>
        simp only [hextension, Bool.false_eq_true, if_false, bind_eq_ok_iff, guard_eq_ok_iff]
          at hfound
        obtain ⟨_, hmember, hpresent, ⟨⟩⟩ := hfound
        exact ⟨hkey, rfl, declared, hdeclared, hnull, hmember, hpresent⟩
  · rintro ⟨hkey, hextension, declared, hdeclared, hnull, hmember, hpresent⟩
    refine ⟨hkey, declared, hdeclared, hnull, ?_⟩
    simp only [hextension, Bool.false_eq_true, if_false, bind_eq_ok_iff, guard_eq_ok_iff]
    exact ⟨pathItem, hmember, hpresent, rfl⟩

theorem operation_eq_ok_iff :
    operation collection document key method = .ok (pathItem, declaration) ↔
      method.isNull = false ∧ item collection document key = .ok pathItem ∧
        memberOf pathItem method = .ok declaration ∧ declaration.isNull = false := by
  unfold operation
  simp only [bind_eq_ok_iff, guard_eq_ok_iff]
  constructor
  · rintro ⟨hmethod, _, hitem, _, hmember, hpresent, ⟨⟩⟩
    exact ⟨hmethod, hitem, hmember, hpresent⟩
  · rintro ⟨hmethod, hitem, hmember, hpresent⟩
    exact ⟨hmethod, _, hitem, _, hmember, hpresent, rfl⟩

end ApiContract.Schema
