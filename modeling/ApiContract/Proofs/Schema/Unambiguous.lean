import ApiContract.Proofs.Schema.Inheritance

/-!
# Unambiguous mappings

A mapping of a description has one value for each of its keys.  Entries in general may repeat a key;
a value is *unambiguous* if none of its mappings does.  Keys are compared as in look-up, so one and
true are one key.
-/

namespace ApiContract

/-- No key is declared twice. -/
def Entries.KeysDiffer {α : Type} (es : Entries α) : Prop :=
  es.keys.Pairwise fun left right => left.same right = false

namespace Entries

variable {α : Type} {es : Entries α} {key : Value}

theorem any_keys_eq_has (es : Entries α) (key : Value) : es.keys.any (·.same key) = es.has key := by
  rw [keys, List.any_map]
  rfl

/-- Insertion under a key that is declared changes no keys. -/
theorem keys_insert_of_has (v : α) (hhas : es.has key = true) :
    (es.insert key v).keys = es.keys := by
  induction es with
  | nil => cases hhas
  | cons entry rest ih =>
      rw [insert]
      split
      · rfl
      · rename_i hother
        rw [has, List.any_cons, Bool.eq_false_iff.mpr hother, Bool.false_or] at hhas
        exact congrArg (entry.1 :: ·) (ih hhas)

/-- Insertion under a key that is not declared adds an entry at the end. -/
theorem insert_of_not_has (v : α) (hfresh : es.has key = false) :
    es.insert key v = es ++ [(key, v)] := by
  induction es with
  | nil => rfl
  | cons entry rest ih =>
      rw [has, List.any_cons, Bool.or_eq_false_iff] at hfresh
      rw [insert, hfresh.1, if_neg Bool.false_ne_true, ih hfresh.2, List.cons_append]

theorem KeysDiffer.insert (hdiffer : es.KeysDiffer) (key : Value) (v : α) :
    (es.insert key v).KeysDiffer := by
  cases hhas : es.has key with
  | true =>
      rw [KeysDiffer, keys_insert_of_has v hhas]
      exact hdiffer
  | false =>
      rw [KeysDiffer, insert_of_not_has v hhas, keys, List.map_append, List.pairwise_append]
      refine ⟨hdiffer, List.pairwise_singleton _ _, fun other hother last hlast => ?_⟩
      rw [← any_keys_eq_has, List.any_eq_false] at hhas
      rw [List.mem_singleton.mp hlast]
      exact Bool.eq_false_iff.mpr (hhas other hother)

/-- A key that differs from all keys before it is not declared before. -/
theorem KeysDiffer.has_eq_false {before after : Entries α} {entry : Value × α}
    (hdiffer : Entries.KeysDiffer (before ++ entry :: after)) : before.has entry.1 = false := by
  rw [KeysDiffer, keys, List.map_append, List.map_cons, List.pairwise_append] at hdiffer
  rw [← any_keys_eq_has, List.any_eq_false]
  intro other hother
  exact Bool.eq_false_iff.mp (hdiffer.2.2 other hother entry.1 List.mem_cons_self)

/-- Entries whose keys differ are put one after another into the mapping that they are. -/
theorem KeysDiffer.ofList_eq (hdiffer : es.KeysDiffer) : ofList es = es := by
  have hfold : ∀ (rest acc : Entries α), KeysDiffer (acc ++ rest) →
      rest.foldl (fun acc e => Entries.insert acc e.1 e.2) acc = acc ++ rest := by
    intro rest
    induction rest with
    | nil => simp
    | cons entry rest ih =>
        intro acc hacc
        have hfresh := hacc.has_eq_false
        rw [List.append_cons] at hacc ⊢
        rw [List.foldl_cons, insert_of_not_has _ hfresh, ih _ hacc]
  exact hfold es [] hdiffer

/-- A text key that is declared once is found with the value that it is declared with. -/
theorem KeysDiffer.field?_of_mem {name : String} {v : α} (hdiffer : es.KeysDiffer)
    (hentry : (.str name, v) ∈ es) : es.field? name = some v := by
  induction es with
  | nil => exact absurd hentry List.not_mem_nil
  | cons entry rest ih =>
      obtain ⟨hfirst, hrest⟩ := List.pairwise_cons.mp hdiffer
      rcases List.mem_cons.mp hentry with rfl | hmem
      · simp [field?, get?]
      · have hother : entry.1.same (.str name) = false :=
          hfirst _ (List.mem_map.mpr ⟨_, hmem, rfl⟩)
        have hfound := ih hrest hmem
        unfold field? get? at hfound ⊢
        rw [List.find?_cons, hother]
        exact hfound

end Entries

namespace Value

mutual

/-- Whether no mapping in a value declares a key twice. -/
def isUnambiguous : Value → Bool
  | .list xs => areUnambiguous xs
  | .map es => entriesAreUnambiguous es
  | .pair a b => a.isUnambiguous && b.isUnambiguous
  | _ => true

def areUnambiguous : List Value → Bool
  | [] => true
  | x :: xs => x.isUnambiguous && areUnambiguous xs

def entriesAreUnambiguous : List (Value × Value) → Bool
  | [] => true
  | (k, v) :: es => (es.all fun e => !k.same e.1) && v.isUnambiguous && entriesAreUnambiguous es

end

theorem isUnambiguous_list_iff {xs : List Value} :
    (Value.list xs).isUnambiguous = true ↔ ∀ x ∈ xs, x.isUnambiguous = true := by
  rw [isUnambiguous]
  induction xs with
  | nil => simp [areUnambiguous]
  | cons x xs ih => simp [areUnambiguous, ih]

theorem isUnambiguous_map_iff {es : Entries} :
    (Value.map es).isUnambiguous = true ↔
      es.KeysDiffer ∧ ∀ entry ∈ es, entry.2.isUnambiguous = true := by
  rw [isUnambiguous]
  induction es with
  | nil => simp [entriesAreUnambiguous, Entries.KeysDiffer, Entries.keys]
  | cons entry es ih =>
      have hcons : Entries.KeysDiffer (entry :: es) ↔
          (∀ other ∈ es, entry.1.same other.1 = false) ∧ Entries.KeysDiffer es := by
        rw [Entries.KeysDiffer, Entries.keys, List.map_cons, List.pairwise_cons,
          List.forall_mem_map]
        rfl
      simp only [entriesAreUnambiguous, Bool.and_eq_true, List.all_eq_true, Bool.not_eq_true', ih,
        hcons, List.forall_mem_cons]
      constructor
      · rintro ⟨⟨hfirst, hvalue⟩, hrest, hvalues⟩
        exact ⟨⟨hfirst, hrest⟩, hvalue, hvalues⟩
      · rintro ⟨⟨hfirst, hrest⟩, hvalue, hvalues⟩
        exact ⟨⟨hfirst, hvalue⟩, hrest, hvalues⟩

end Value

namespace Schema

theorem isUnambiguous_inherited : Inherited (·.isUnambiguous = true) where
  null := rfl
  item hlist hx := Value.isUnambiguous_list_iff.mp hlist _ hx
  member hmap hentry := (Value.isUnambiguous_map_iff.mp hmap).2 _ hentry
  first hpair := by
    rw [Value.isUnambiguous, Bool.and_eq_true] at hpair
    exact hpair.1
  second hpair := by
    rw [Value.isUnambiguous, Bool.and_eq_true] at hpair
    exact hpair.2

theorem keysDiffer_entriesIn {v : Value} (hkeys : v.isUnambiguous = true) :
    (entriesIn v).KeysDiffer := by
  cases v with
  | map es => exact (Value.isUnambiguous_map_iff.mp hkeys).1
  | _ => exact List.Pairwise.nil

end Schema

end ApiContract
