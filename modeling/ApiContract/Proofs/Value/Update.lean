import ApiContract.Proofs.Value.Erasure
import ApiContract.Proofs.Value.Key

/-!
# Entries changed in place

Insertion under a key that a table has already changes one value and moves nothing, so it is a map
over the entries.  Changes under one name come one after the other, and those under different names
do not meet.
-/

namespace ApiContract.Entries

variable {α : Type} {es : Entries α} {key : Value} {name other : String} {v w : α}

/-- Entries whose keys are different texts are a table. -/
theorem isTable_of_names {names : List String} (hkeys : es.keys = names.map Value.str)
    (hnodup : names.Nodup) : es.IsTable where
  areKeys entry hentry := by
    have hkey : entry.1 ∈ names.map Value.str := hkeys ▸ List.mem_map_of_mem hentry
    obtain ⟨name, -, heq⟩ := List.mem_map.mp hkey
    exact heq ▸ rfl
  differ := by
    rw [KeysDiffer, hkeys, List.pairwise_map]
    exact hnodup.imp fun hne => by simpa using hne

theorem update_id (es : Entries α) (name : String) : es.update name id = es := by
  rw [update]
  refine (List.map_congr_left fun entry _ => ?_).trans (List.map_id es)
  split <;> rfl

/-- In a table only one key is the same as a given one. -/
theorem IsTable.tail_ne_same {entry : Value × α} (htable : IsTable (entry :: es))
    (hkey : key.isKey = true) (hsame : entry.1.same key = true) :
    ∀ later ∈ es, later.1.same key = false := by
  obtain ⟨hentryKey, hfirst, hrest⟩ := isTable_cons_iff.mp htable
  intro later hlater
  rw [Bool.eq_false_iff]
  intro hboth
  have heq := Value.same_of_same hentryKey (hrest.areKeys later hlater) hkey hsame hboth
  rw [hfirst later hlater] at heq
  cases heq

/-- The entries with the value under one key changed. -/
def updateAt (es : Entries α) (key : Value) (change : α → α) : Entries α :=
  es.map fun entry => if entry.1.same key = true then (entry.1, change entry.2) else entry

theorem keys_updateAt (es : Entries α) (key : Value) (change : α → α) :
    (es.updateAt key change).keys = es.keys := by
  rw [keys, updateAt, List.map_map, keys]
  refine List.map_congr_left fun entry _ => ?_
  rw [Function.comp_apply]
  split <;> rfl

/-- A change that keeps what is found under the key keeps everything. -/
theorem IsTable.updateAt_eq_self {change : α → α} (htable : es.IsTable) (hkey : key.isKey = true)
    (hkept : ∀ v, es.get? key = some v → change v = v) : es.updateAt key change = es := by
  refine (List.map_congr_left fun entry hentry => ?_).trans (List.map_id es)
  split
  · rename_i hsame
    rw [hkept entry.2 ((htable.get?_eq_some_iff hkey).mpr ⟨entry, hentry, hsame, rfl⟩), id]
  · rfl

/-- Insertion under a declared key changes the value that is found there. -/
theorem IsTable.insert_eq_updateAt (htable : es.IsTable) (hkey : key.isKey = true)
    (hget : es.get? key = some v) (change : α → α) :
    es.insert key (change v) = es.updateAt key change := by
  induction es with
  | nil => cases hget
  | cons entry rest ih =>
      rw [get?_cons] at hget
      rw [Entries.insert, updateAt, List.map_cons]
      split at hget
      · rename_i hsame
        have hkept : updateAt rest key change = rest := by
          refine (List.map_congr_left fun later hlater => ?_).trans (List.map_id rest)
          rw [if_neg (by simp [htable.tail_ne_same hkey hsame later hlater]), id]
        rw [if_pos hsame, if_pos hsame, Option.some.inj hget, ← updateAt, hkept]
      · rename_i hother
        rw [if_neg hother, if_neg hother, ih (isTable_cons_iff.mp htable).2.2 hget, updateAt]

/-- Insertion under a declared name changes the value of that name in place. -/
theorem IsTable.insert_eq_update (htable : es.IsTable) (hfield : es.field? name = some v)
    (change : α → α) : es.insert (.str name) (change v) = es.update name change :=
  htable.insert_eq_updateAt rfl hfield change

/-- A change that keeps the value of a declared name keeps everything. -/
theorem IsTable.update_eq_self {change : α → α} (htable : es.IsTable)
    (hfield : es.field? name = some v) (hkept : change v = v) : es.update name change = es := by
  rw [← htable.insert_eq_update hfield, hkept]
  exact (htable.insert_eq_update hfield id).trans (update_id es name)

/-- What is found in a table does not depend on the order of its entries. -/
theorem IsTable.get?_perm {reordered : Entries α} (htable : es.IsTable)
    (hreordered : reordered.IsTable) (hperm : reordered.Perm es) (hkey : key.isKey = true) :
    reordered.get? key = es.get? key := by
  apply Option.ext
  intro v
  rw [htable.get?_eq_some_iff hkey, hreordered.get?_eq_some_iff hkey]
  simp only [hperm.mem_iff]

/-- A change under the name that has just been inserted is a change of what is inserted. -/
theorem update_insert_self (es : Entries α) (name : String) (v : α) (change : α → α) :
    (es.insert (.str name) v).update name change =
      (es.update name change).insert (.str name) (change v) := by
  induction es with
  | nil => simp [insert, update]
  | cons entry rest ih =>
      rw [insert]
      unfold update at ih ⊢
      cases hsame : entry.1.same (.str name) with
      | true => simp [hsame, insert]
      | false => simp [hsame, insert, ih]

theorem update_insert_of_ne (hother : other ≠ name) (es : Entries α) (v : α) (change : α → α) :
    (es.insert (.str other) v).update name change =
      (es.update name change).insert (.str other) v := by
  induction es with
  | nil => simp [insert, update, hother]
  | cons entry rest ih =>
      rw [insert]
      unfold update at ih ⊢
      cases hsame : entry.1.same (.str other) with
      | true =>
          have hne : entry.1.same (.str name) = false := by
            rw [Value.eq_str_of_same hsame, Value.same_str, beq_eq_false_iff_ne]
            exact hother
          simp [hsame, hne, insert]
      | false =>
          by_cases hname : entry.1.same (.str name) = true
          · simp [hsame, hname, insert, ih]
          · simp [hsame, hname, insert, ih]

/-- Insertion under one declared name and under another name come to the same in either order. -/
theorem insert_comm_of_has (hother : other ≠ name) (hhas : es.has (.str name) = true) (v w : α) :
    (es.insert (.str other) w).insert (.str name) v =
      (es.insert (.str name) v).insert (.str other) w := by
  induction es with
  | nil => cases hhas
  | cons entry rest ih =>
      by_cases hname : entry.1.same (.str name) = true
      · have hne : entry.1.same (.str other) = false := by
          rw [Value.eq_str_of_same hname, Value.same_str, beq_eq_false_iff_ne]
          exact Ne.symm hother
        simp [insert, hname, hne]
      · have hrest : has rest (.str name) = true := by
          simpa [has, hname] using hhas
        by_cases hsame : entry.1.same (.str other) = true
        · simp [insert, hname, hsame]
        · simp [insert, hname, hsame, ih hrest]

end ApiContract.Entries
