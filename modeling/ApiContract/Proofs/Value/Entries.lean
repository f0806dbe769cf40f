import ApiContract.Value

/-!
# Laws of entries

A text key is found by its spelling alone, so look-up and insertion under text keys behave as in a
finite map.  Mappings whose keys do not repeat keep that under insertion.
-/

namespace ApiContract

/-- A text is the same as nothing but itself. -/
theorem Value.str_same_iff {v : Value} {s : String} :
    (Value.str s).same v = true ↔ v = .str s := by
  constructor
  · intro hsame
    cases v <;> simp_all [same]
  · rintro rfl
    simp

namespace Entries

variable {α : Type}

/-- What is found under a text key stands in the mapping. -/
theorem mem_of_field? {es : Entries α} {name : String} {v : α}
    (hfield : es.field? name = some v) : (.str name, v) ∈ es := by
  unfold field? get? at hfield
  obtain ⟨entry, hfind, rfl⟩ := Option.map_eq_some_iff.mp hfield
  have hsame := List.find?_some hfind
  have hkey : entry.1 = .str name := Value.eq_str_of_same hsame
  rw [← hkey]
  exact List.mem_of_find?_eq_some hfind

theorem field?_eq_none_iff {es : Entries α} {name : String} :
    es.field? name = none ↔ .str name ∉ es.keys := by
  unfold field? get? keys
  rw [Option.map_eq_none_iff, List.find?_eq_none]
  constructor
  · intro hnone hmem
    obtain ⟨entry, hentry, hkey⟩ := List.mem_map.mp hmem
    apply hnone entry hentry
    simp [hkey]
  · intro hmem entry hentry hsame
    exact hmem (List.mem_map.mpr ⟨entry, hentry, Value.eq_str_of_same hsame⟩)

theorem has_eq_isSome_get? (es : Entries α) (key : Value) :
    es.has key = (es.get? key).isSome := by
  unfold has get?
  rw [Option.isSome_map, List.isSome_find?]

theorem has_str_iff {es : Entries α} {name : String} :
    es.has (.str name) = true ↔ ∃ entry ∈ es, entry.1 = .str name := by
  rw [has, List.any_eq_true]
  constructor
  · intro hany
    obtain ⟨entry, hentry, hsame⟩ := hany
    exact ⟨entry, hentry, Value.eq_str_of_same hsame⟩
  · intro hkey
    obtain ⟨entry, hentry, hkey⟩ := hkey
    exact ⟨entry, hentry, by rw [hkey, Value.str_same_iff]⟩

theorem has_cons_str_iff {es : Entries α} {name : String} {v : α} {key : Value} :
    Entries.has ((.str name, v) :: es) key = true ↔ key = .str name ∨ es.has key = true := by
  rw [has, List.any_cons, Bool.or_eq_true, Value.str_same_iff]
  rfl

theorem has_nil (key : Value) : Entries.has ([] : Entries α) key = false := rfl

theorem has_str_of_field? {es : Entries α} {name : String} {v : α}
    (hfield : es.field? name = some v) : es.has (.str name) = true :=
  has_str_iff.mpr ⟨_, mem_of_field? hfield, rfl⟩

theorem field?_cons_self (name : String) (v : α) (es : Entries α) :
    Entries.field? ((.str name, v) :: es) name = some v := by
  simp [field?, get?]

theorem field?_cons_of_ne {entry : Value × α} {name : String} (es : Entries α)
    (hkey : entry.1 ≠ .str name) : Entries.field? (entry :: es) name = es.field? name := by
  have hother : entry.1.same (.str name) = false :=
    Bool.eq_false_iff.mpr fun hsame => hkey (Value.eq_str_of_same hsame)
  rw [field?, get?, List.find?_cons, hother]
  rfl

/-- What a text key has is left by an insertion under any other key. -/
theorem field?_insert_of_key_ne {key : Value} {name : String} (es : Entries α) (v : α)
    (hkey : key ≠ .str name) : (es.insert key v).field? name = es.field? name := by
  induction es with
  | nil => rw [insert, field?_cons_of_ne [] hkey]
  | cons entry rest ih =>
      rw [insert]
      by_cases hentry : entry.1 = .str name
      · have hother : entry.1.same key = false := by
          rw [hentry, Bool.eq_false_iff]
          exact fun hsame => hkey (Value.str_same_iff.mp hsame)
        obtain ⟨first, value⟩ := entry
        obtain rfl : first = .str name := hentry
        rw [hother, if_neg Bool.false_ne_true, field?_cons_self, field?_cons_self]
      · split
        · rw [field?_cons_of_ne rest (show (entry.1, v).1 ≠ .str name from hentry),
            field?_cons_of_ne rest hentry]
        · rw [field?_cons_of_ne _ hentry, field?_cons_of_ne _ hentry, ih]

/-- What stands in a mapping after an insertion stood there before, or has the new value under a key
that stood there before or is the new one. -/
theorem mem_of_mem_insert {es : Entries α} {key : Value} {v : α} {entry : Value × α}
    (hentry : entry ∈ es.insert key v) :
    entry ∈ es ∨ (entry.2 = v ∧ (entry.1 = key ∨ entry.1 ∈ es.keys)) := by
  induction es with
  | nil =>
      obtain rfl := List.mem_singleton.mp hentry
      exact Or.inr ⟨rfl, Or.inl rfl⟩
  | cons head rest ih =>
      rw [insert] at hentry
      split at hentry
      · rcases List.mem_cons.mp hentry with rfl | hrest
        · exact Or.inr ⟨rfl, Or.inr (by simp [keys])⟩
        · exact Or.inl (List.mem_cons_of_mem _ hrest)
      · rcases List.mem_cons.mp hentry with rfl | hrest
        · exact Or.inl List.mem_cons_self
        · rcases ih hrest with hold | ⟨hv, hkey | hkey⟩
          · exact Or.inl (List.mem_cons_of_mem _ hold)
          · exact Or.inr ⟨hv, Or.inl hkey⟩
          · exact Or.inr ⟨hv, Or.inr (List.mem_cons_of_mem _ hkey)⟩

/-! ## Insertion under a text key -/

/-- Insertion under a text key that is not declared adds an entry at the end. -/
theorem insert_of_not_mem {es : Entries α} {name : String} (v : α)
    (hname : .str name ∉ es.keys) : es.insert (.str name) v = es ++ [(.str name, v)] := by
  induction es with
  | nil => rfl
  | cons entry rest ih =>
      rw [keys, List.map_cons, List.mem_cons, not_or] at hname
      have hother : entry.1.same (.str name) = false :=
        Bool.eq_false_iff.mpr fun hsame => hname.1 (Value.eq_str_of_same hsame).symm
      rw [insert, hother, if_neg Bool.false_ne_true, ih hname.2, List.cons_append]

/-- After insertion under a text key that key has the new value; all others have what they had. -/
theorem mem_insert_iff {es : Entries α} {name : String} {v : α} {entry : Value × α}
    (hnodup : es.keys.Nodup) :
    entry ∈ es.insert (.str name) v ↔
      entry = (.str name, v) ∨ (entry ∈ es ∧ entry.1 ≠ .str name) := by
  induction es with
  | nil => simp [insert]
  | cons head rest ih =>
      rw [keys, List.map_cons, List.nodup_cons] at hnodup
      rw [insert]
      split
      · rename_i hsame
        have hhead : head.1 = .str name := Value.eq_str_of_same hsame
        have hrest : ∀ other ∈ rest, other.1 ≠ .str name := by
          rintro other hother heq
          exact hnodup.1 (List.mem_map.mpr ⟨other, hother, heq.trans hhead.symm⟩)
        rw [List.mem_cons, hhead]
        constructor
        · intro hmem
          rcases hmem with rfl | hentry
          · exact Or.inl rfl
          · exact Or.inr ⟨List.mem_cons_of_mem _ hentry, hrest entry hentry⟩
        · intro hmem
          rcases hmem with rfl | ⟨hentry, hne⟩
          · exact Or.inl rfl
          · rcases List.mem_cons.mp hentry with rfl | hmem
            · exact absurd hhead hne
            · exact Or.inr hmem
      · rename_i hother
        have hhead : head.1 ≠ .str name := by
          intro heq
          simp [heq] at hother
        rw [List.mem_cons, ih hnodup.2, List.mem_cons]
        constructor
        · intro hmem
          rcases hmem with rfl | rfl | ⟨hentry, hne⟩
          · exact Or.inr ⟨Or.inl rfl, hhead⟩
          · exact Or.inl rfl
          · exact Or.inr ⟨Or.inr hentry, hne⟩
        · intro hmem
          rcases hmem with rfl | ⟨rfl | hentry, hne⟩
          · exact Or.inr (Or.inl rfl)
          · exact Or.inl rfl
          · exact Or.inr (Or.inr ⟨hentry, hne⟩)

end Entries

end ApiContract
