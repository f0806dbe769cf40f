import ApiContract.Proofs.Schema.DeclaredParameter
import ApiContract.Proofs.Value.Entries
import ApiContract.Value.Display

/-!
# What parts of a value inherit

Some properties of a value pass to its parts, so they need to be assumed of a whole description
only: that it can stand in a message, that it has a text in JSON, that all its keys are texts.  A
property that passes to the direct parts holds of whatever the builders look at.
-/

namespace ApiContract.Value

theorem isQuotable_list_iff {xs : List Value} :
    (Value.list xs).isQuotable = true ↔ ∀ x ∈ xs, x.isQuotable = true := by
  rw [isQuotable]
  induction xs with
  | nil => simp [areQuotable]
  | cons x xs ih => simp [areQuotable, ih]

theorem isQuotable_map_iff {es : Entries} :
    (Value.map es).isQuotable = true ↔
      ∀ entry ∈ es, entry.1.isQuotable = true ∧ entry.2.isQuotable = true := by
  rw [isQuotable]
  induction es with
  | nil => simp [entriesAreQuotable]
  | cons entry es ih => simp [entriesAreQuotable, ih, and_assoc]

theorem isJson_list_iff {xs : List Value} :
    (Value.list xs).isJson = true ↔ ∀ x ∈ xs, x.isJson = true := by
  rw [isJson]
  induction xs with
  | nil => simp [areJson]
  | cons x xs ih => simp [areJson, ih]

theorem isJson_map_iff {es : Entries} :
    (Value.map es).isJson = true ↔
      ∀ entry ∈ es, (Json.keyName? entry.1).isSome = true ∧ entry.2.isJson = true := by
  rw [isJson]
  induction es with
  | nil => simp [entriesAreJson]
  | cons entry es ih => simp [entriesAreJson, ih, and_assoc]

end ApiContract.Value

namespace ApiContract.Schema

/-- A property that null has and that passes from a value to its parts. -/
structure Inherited (P : Value → Prop) : Prop where
  null : P .null
  item {xs : List Value} {x : Value} (hlist : P (.list xs)) (hx : x ∈ xs) : P x
  member {es : Entries} {entry : Value × Value} (hmap : P (.map es)) (hentry : entry ∈ es) :
    P entry.2
  first {a b : Value} (hpair : P (.pair a b)) : P a
  second {a b : Value} (hpair : P (.pair a b)) : P b

variable {v : Value} {name : String}

@[simp] theorem entriesIn_map (es : Entries) : entriesIn (.map es) = es := rfl

@[simp] theorem memberIn_map (es : Entries) (name : String) :
    memberIn (.map es) name = Entries.fieldD es name := rfl

theorem mem_of_fieldD {es : Entries} (hfield : Entries.fieldD es name = v)
    (hpresent : v.isNull = false) : (.str name, v) ∈ es := by
  rw [Entries.fieldD] at hfield
  cases hfound : Entries.field? es name with
  | none =>
      rw [hfound] at hfield
      simp [← hfield, Value.isNull] at hpresent
  | some w =>
      rw [hfound] at hfield
      obtain rfl : w = v := hfield
      exact Entries.mem_of_field? hfound

namespace Inherited

variable {P : Value → Prop} (inherited : Inherited P)

include inherited

theorem of_mem_entriesIn {entry : Value × Value} (hv : P v) (hentry : entry ∈ entriesIn v) :
    P entry.2 := by
  cases v with
  | map es => exact inherited.member hv hentry
  | _ => simp [entriesIn, Value.asMap?] at hentry

theorem memberIn (hv : P v) : P (memberIn v name) := by
  cases hpresent : (Schema.memberIn v name).isNull with
  | true =>
      have hnull : Schema.memberIn v name = .null := by
        cases hmember : Schema.memberIn v name <;> simp_all [Value.isNull]
      rw [hnull]
      exact inherited.null
  | false => exact inherited.of_mem_entriesIn hv (mem_of_fieldD rfl hpresent)

theorem of_mem_declarations {declaration : Value} (hv : P v)
    (hdeclared : declaration ∈ declarations v) : P declaration := by
  cases v with
  | list ds => exact inherited.item hv hdeclared
  | pair first second =>
      rcases List.mem_pair.mp hdeclared with rfl | rfl
      · exact inherited.first hv
      · exact inherited.second hv
  | _ => simp [declarations] at hdeclared

end Inherited

theorem isQuotable_inherited : Inherited (·.isQuotable = true) where
  null := rfl
  item hlist hx := Value.isQuotable_list_iff.mp hlist _ hx
  member hmap hentry := (Value.isQuotable_map_iff.mp hmap _ hentry).2
  first hpair := by
    rw [Value.isQuotable, Bool.and_eq_true] at hpair
    exact hpair.1
  second hpair := by
    rw [Value.isQuotable, Bool.and_eq_true] at hpair
    exact hpair.2

theorem isJson_inherited : Inherited (·.isJson = true) where
  null := rfl
  item hlist hx := Value.isJson_list_iff.mp hlist _ hx
  member hmap hentry := (Value.isJson_map_iff.mp hmap _ hentry).2
  first hpair := by
    rw [Value.isJson, Bool.and_eq_true] at hpair
    exact hpair.1
  second hpair := by
    rw [Value.isJson, Bool.and_eq_true] at hpair
    exact hpair.2

end ApiContract.Schema
