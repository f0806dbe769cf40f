import ApiContract.Proofs.Schema.Acceptance
import ApiContract.Proofs.Value.Erasure
import ApiContract.Schema.Response
import Mathlib.Data.List.Induction

/-!
# Properties named one after another

Buckets and messages are built by steps that each name one property and may require it: one for
every header, parameter or bucket.  `Names` says what such a step does.  What a whole run of them
leaves follows by induction: under different names the properties stand in the order of the steps,
and a name is required exactly if a step required it.
-/

namespace ApiContract.Schema

variable {α : Type}

/-- A step of `add` names the property `name a` with a schema, requires it if `requires a` holds,
and changes nothing else. -/
structure Names (add : ObjectNode Node → α → ObjectNode Node) (name : α → String)
    (schema : α → Node) (requires : α → Prop) : Prop where
  properties : ∀ o a, (add o a).properties = Entries.insert o.properties (.str (name a)) (schema a)
  required : ∀ o a key,
    key ∈ (add o a).required ↔ key ∈ o.required ∨ (requires a ∧ key = .str (name a))
  additional : ∀ o a, (add o a).additional = o.additional

namespace Names

variable {add : ObjectNode Node → α → ObjectNode Node} {name : α → String} {schema : α → Node}
  {requires : α → Prop} {as : List α} {o : ObjectNode Node} {key : Value}

theorem of_eq [DecidablePred requires]
    (hadd : ∀ o a, add o a =
      if requires a then (o.set (.str (name a)) (schema a)).require (.str (name a))
      else o.set (.str (name a)) (schema a)) : Names add name schema requires where
  properties o a := by
    rw [hadd]
    split <;> simp [ObjectNode.set]
  required o a key := by
    rw [hadd]
    split
    · rename_i hrequires
      simp [mem_required_require_iff, hrequires]
    · rename_i hrequires
      simp [hrequires]
  additional o a := by
    rw [hadd]
    split <;> simp [ObjectNode.set]

theorem additional_foldl (hstep : Names add name schema requires) (as : List α)
    (o : ObjectNode Node) : (as.foldl add o).additional = o.additional := by
  induction as generalizing o with
  | nil => rfl
  | cons a rest ih => rw [List.foldl_cons, ih, hstep.additional]

theorem mem_required_foldl_iff (hstep : Names add name schema requires) :
    key ∈ (as.foldl add o).required ↔
      key ∈ o.required ∨ ∃ a ∈ as, requires a ∧ key = .str (name a) := by
  induction as generalizing o with
  | nil => simp
  | cons a rest ih =>
      rw [List.foldl_cons, ih, hstep.required]
      simp only [List.mem_cons, exists_eq_or_imp, or_assoc]

theorem mem_keys_foldl_iff (hstep : Names add name schema requires) :
    key ∈ Entries.keys (as.foldl add o).properties ↔
      key ∈ Entries.keys o.properties ∨ ∃ a ∈ as, key = .str (name a) := by
  induction as generalizing o with
  | nil => simp
  | cons a rest ih =>
      rw [List.foldl_cons, ih, hstep.properties, Entries.mem_keys_insert_iff]
      simp only [List.mem_cons, exists_eq_or_imp, or_assoc]

/-- Names that are repeated keep one place, so the keys stay distinct. -/
theorem nodup_keys_foldl (hstep : Names add name schema requires)
    (hnodup : (Entries.keys o.properties).Nodup) :
    (Entries.keys (as.foldl add o).properties).Nodup := by
  induction as generalizing o with
  | nil => exact hnodup
  | cons a rest ih =>
      rw [List.foldl_cons]
      apply ih
      rw [hstep.properties]
      exact Entries.nodup_keys_insert hnodup

/-- Steps with new names add their properties at the end, in order. -/
theorem properties_foldl (hstep : Names add name schema requires) (hnames : (as.map name).Nodup)
    (hfresh : ∀ a ∈ as, .str (name a) ∉ Entries.keys o.properties) :
    (as.foldl add o).properties = o.properties ++ as.map fun a => (.str (name a), schema a) := by
  induction as generalizing o with
  | nil => simp
  | cons a rest ih =>
      rw [List.map_cons, List.nodup_cons] at hnames
      have hadded : (add o a).properties = o.properties ++ [(.str (name a), schema a)] := by
        rw [hstep.properties]
        exact Entries.insert_of_not_mem _ (hfresh a List.mem_cons_self)
      have hstill : ∀ other ∈ rest, .str (name other) ∉ Entries.keys (add o a).properties := by
        intro other hother hmem
        rw [hstep.properties, Entries.mem_keys_insert_iff] at hmem
        rcases hmem with hmem | hname
        · exact hfresh other (List.mem_cons_of_mem _ hother) hmem
        · apply hnames.1
          rw [← Value.str.inj hname]
          exact List.mem_map.mpr ⟨other, hother, rfl⟩
      rw [List.foldl_cons, ih hnames.2 hstill, hadded, List.append_assoc]
      rfl

/-- A name that is given several schemas keeps the last one. -/
theorem property?_foldl (hstep : Names add name schema requires) (as : List α)
    (o : ObjectNode Node) (n : String) :
    (as.foldl add o).property? n =
      ((as.filter (name · == n)).getLast?.map schema).or (o.property? n) := by
  induction as using List.reverseRecOn with
  | nil => rfl
  | append_singleton rest a ih =>
      rw [List.foldl_append, List.foldl_cons, List.foldl_nil, ObjectNode.property?,
        hstep.properties, List.filter_append, List.getLast?_append]
      by_cases ha : name a = n
      · subst ha
        simp [Entries.field?_insert_self]
      · rw [Entries.field?_insert_of_ne (Ne.symm ha)]
        simpa [ha, ObjectNode.property?] using ih

end Names

/-! ## The steps of the library -/

theorem names_addHeader :
    Names addHeader Header.name (fun h => .given h.schema) fun h => h.required = true :=
  .of_eq fun _ _ => rfl

theorem names_addParameter :
    Names addParameter Parameter.name (fun p => .given p.schema) fun p => p.required = true :=
  .of_eq fun _ _ => rfl

/-- A bucket is required exactly if it names something. -/
theorem names_addBucket (parameters : List Parameter) :
    Names (addBucket parameters) bucketName (fun location => .object (bucket parameters location))
      fun location => (bucket parameters location).properties ≠ [] := by
  apply Names.of_eq
  intro o location
  unfold addBucket
  simp only [List.isEmpty_iff, ne_eq, ite_not]

end ApiContract.Schema
