import ApiContract.Proofs.Value.Entries
import Mathlib.Data.List.Nodup

/-!
# Entries beside a name

`Entries.erase` drops what stands under one text key and `Entries.update` changes it.  Both leave
everything under the other keys as it is, and what insertion does is seen under its own key only.
-/

namespace ApiContract

theorem Value.same_str_iff {v : Value} {s : String} : v.same (.str s) = true ↔ v = .str s := by
  constructor
  · exact eq_str_of_same
  · rintro rfl
    simp

theorem Value.same_str_eq_false_iff {v : Value} {s : String} :
    v.same (.str s) = false ↔ v ≠ .str s := by
  rw [← Bool.not_eq_true, same_str_iff]

namespace Entries

variable {α : Type}

/-- The entries under all keys but one text. -/
def erase (es : Entries α) (name : String) : Entries α :=
  es.filter fun e => !e.1.same (.str name)

/-- The entries with the value under one text key changed. -/
def update (es : Entries α) (name : String) (change : α → α) : Entries α :=
  es.map fun e => if e.1.same (.str name) then (e.1, change e.2) else e

variable {es : Entries α} {name : String} {key : Value} {v : α} {change : α → α}

theorem mem_erase_iff {entry : Value × α} :
    entry ∈ es.erase name ↔ entry ∈ es ∧ entry.1 ≠ .str name := by
  rw [erase, List.mem_filter, Bool.not_eq_true', Value.same_str_eq_false_iff]

theorem erase_cons_self (v : α) (es : Entries α) :
    erase ((.str name, v) :: es) name = es.erase name := by
  rw [erase, List.filter_cons_of_neg (by simp)]
  rfl

theorem erase_cons_of_ne (v : α) (es : Entries α) (hkey : key ≠ .str name) :
    erase ((key, v) :: es) name = (key, v) :: es.erase name := by
  have hother : key.same (.str name) = false := Value.same_str_eq_false_iff.mpr hkey
  rw [erase, List.filter_cons_of_pos (by simp [hother])]
  rfl

theorem erase_of_not_mem (hname : .str name ∉ es.keys) : es.erase name = es := by
  rw [erase, List.filter_eq_self]
  intro entry hentry
  have hkey : entry.1 ≠ .str name := fun heq => hname (List.mem_map.mpr ⟨entry, hentry, heq⟩)
  simp [Value.same_str_eq_false_iff.mpr hkey]

/-! ## Look-up -/

theorem get?_erase_of_ne (hkey : key ≠ .str name) : (es.erase name).get? key = es.get? key := by
  induction es with
  | nil => rfl
  | cons entry rest ih =>
      obtain ⟨head, v⟩ := entry
      by_cases hhead : head = .str name
      · subst hhead
        have hother : (Value.str name).same key = false := by
          rw [← Bool.not_eq_true, Value.str_same_iff]
          exact hkey
        rw [erase_cons_self, ih, get?, get?, List.find?_cons_of_neg (by simp [hother])]
      · rw [erase_cons_of_ne v rest hhead]
        unfold get? at ih ⊢
        rw [List.find?_cons, List.find?_cons]
        cases head.same key with
        | true => rfl
        | false => exact ih

theorem has_erase_of_ne (hkey : key ≠ .str name) : (es.erase name).has key = es.has key := by
  rw [has_eq_isSome_get?, has_eq_isSome_get?, get?_erase_of_ne hkey]

theorem field?_erase_of_ne {other : String} (hother : other ≠ name) :
    (es.erase name).field? other = es.field? other :=
  get?_erase_of_ne fun heq => hother (Value.str.inj heq)

theorem field?_eq_none_of_has (habsent : es.has (.str name) = false) : es.field? name = none := by
  rw [has_eq_isSome_get?, Option.isSome_eq_false_iff, Option.isNone_iff_eq_none] at habsent
  exact habsent

theorem has_str_eq_true_iff_field? :
    es.has (.str name) = true ↔ ∃ v, es.field? name = some v := by
  rw [has_eq_isSome_get?, Option.isSome_iff_exists]
  rfl

theorem field?_update_self :
    (es.update name change).field? name = (es.field? name).map change := by
  induction es with
  | nil => rfl
  | cons entry rest ih =>
      obtain ⟨key, v⟩ := entry
      unfold field? get? update at ih ⊢
      rw [List.map_cons, List.find?_cons, List.find?_cons]
      cases hsame : key.same (.str name) with
      | true => simp [hsame]
      | false => simpa [hsame] using ih

theorem keys_update (es : Entries α) (name : String) (change : α → α) :
    (es.update name change).keys = es.keys := by
  rw [keys, update, List.map_map, keys]
  apply List.map_congr_left
  intro entry _
  rw [Function.comp_apply]
  split <;> rfl

theorem has_update : (es.update name change).has key = es.has key := by
  have hany : ∀ other : Entries α, other.has key = other.keys.any (·.same key) := by
    intro other
    rw [has, keys, List.any_map]
    rfl
  rw [hany, keys_update, hany]

theorem erase_update : (es.update name change).erase name = es.erase name := by
  induction es with
  | nil => rfl
  | cons entry rest ih =>
      obtain ⟨key, v⟩ := entry
      unfold erase update at ih ⊢
      rw [List.map_cons, List.filter_cons, List.filter_cons, ih]
      cases hsame : key.same (.str name) with
      | true => simp [hsame]
      | false => simp [hsame]

/-! ## Insertion under a text key -/

theorem keys_insert_of_mem (hname : .str name ∈ es.keys) :
    (es.insert (.str name) v).keys = es.keys := by
  induction es with
  | nil => exact absurd hname List.not_mem_nil
  | cons entry rest ih =>
      obtain ⟨head, w⟩ := entry
      rw [insert]
      split
      · rfl
      · rename_i hother
        have hne : head ≠ .str name := fun heq => hother (Value.same_str_iff.mpr heq)
        have hrest : .str name ∈ keys rest := by
          rcases List.mem_cons.mp hname with heq | hmem
          · exact absurd heq.symm hne
          · exact hmem
        exact congrArg (head :: ·) (ih hrest)

theorem keys_insert_of_not_mem (hname : .str name ∉ es.keys) :
    (es.insert (.str name) v).keys = es.keys ++ [.str name] := by
  rw [insert_of_not_mem v hname, keys, List.map_append]
  rfl

theorem mem_keys_insert_iff :
    key ∈ (es.insert (.str name) v).keys ↔ key ∈ es.keys ∨ key = .str name := by
  by_cases hname : .str name ∈ es.keys
  · rw [keys_insert_of_mem hname]
    constructor
    · exact Or.inl
    · rintro (hkey | rfl)
      · exact hkey
      · exact hname
  · rw [keys_insert_of_not_mem hname, List.mem_append, List.mem_singleton]

theorem nodup_keys_insert (hnodup : es.keys.Nodup) : (es.insert (.str name) v).keys.Nodup := by
  by_cases hname : .str name ∈ es.keys
  · rw [keys_insert_of_mem hname]
    exact hnodup
  · rw [keys_insert_of_not_mem hname, ← List.concat_eq_append]
    exact hnodup.concat hname

theorem field?_insert_self : (es.insert (.str name) v).field? name = some v := by
  induction es with
  | nil => simp [insert, field?, get?]
  | cons entry rest ih =>
      rw [insert]
      unfold field? get? at ih ⊢
      cases hsame : entry.1.same (.str name) with
      | true => simp [hsame]
      | false => simpa [hsame] using ih

/-- Insertion is seen under its own key only. -/
theorem erase_insert_self : (es.insert (.str name) v).erase name = es.erase name := by
  induction es with
  | nil => simp [insert, erase]
  | cons entry rest ih =>
      rw [insert]
      unfold erase at ih ⊢
      cases hsame : entry.1.same (.str name) with
      | true => simp [hsame]
      | false => simpa [hsame] using ih

theorem erase_insert_of_ne {other : String} (hother : other ≠ name) :
    (es.insert (.str other) v).erase name = (es.erase name).insert (.str other) v := by
  have hkey : (Value.str other : Value) ≠ .str name := fun heq => hother (Value.str.inj heq)
  induction es with
  | nil => rw [insert, erase_cons_of_ne v [] hkey]; rfl
  | cons entry rest ih =>
      obtain ⟨head, w⟩ := entry
      by_cases hhead : head = .str name
      · subst hhead
        have hsame : (Value.str name).same (.str other) = false :=
          Value.same_str_eq_false_iff.mpr hkey.symm
        simp only [insert, hsame, Bool.false_eq_true, if_false, erase_cons_self, ih]
      · rw [erase_cons_of_ne w rest hhead, insert, insert]
        split
        · rw [erase_cons_of_ne v rest hhead]
        · rw [erase_cons_of_ne w _ hhead, ih]

/-- Insertion leaves what stands under the other keys. -/
theorem field?_insert_of_ne {other : String} (hother : other ≠ name) :
    (es.insert (.str name) v).field? other = es.field? other := by
  rw [← field?_erase_of_ne hother, erase_insert_self, field?_erase_of_ne hother]

end Entries

end ApiContract
