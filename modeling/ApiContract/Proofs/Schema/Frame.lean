import ApiContract.Proofs.Schema.Acceptance
import ApiContract.Proofs.Value.Erasure

/-!
# One name of an object schema

What an object schema says about one name is told apart from what it says about all others.
`ObjectNode.erase` forgets one name; a change under that name is not seen by what is left.  An
object conforms to a schema exactly if the schema holds under the name and the object without the
name conforms to the schema without it.
-/

namespace ApiContract.Schema

namespace ObjectNode

variable {ν : Type} {o : ObjectNode ν} {name other : String} {schema : ν}

/-- The object schema without what it says about one name. -/
def erase (o : ObjectNode ν) (name : String) : ObjectNode ν :=
  ⟨Entries.erase o.properties name, o.required.filter fun key => !key.same (.str name),
    o.additional⟩

theorem mem_required_erase_iff {key : Value} :
    key ∈ (o.erase name).required ↔ key ∈ o.required ∧ key ≠ .str name := by
  rw [erase, List.mem_filter, Bool.not_eq_true', Value.same_str_eq_false_iff]

@[simp] theorem erase_set (o : ObjectNode ν) (name : String) (schema : ν) :
    (o.set (.str name) schema).erase name = o.erase name := by
  rw [erase, set, Entries.erase_insert_self, erase]

@[simp] theorem erase_require (o : ObjectNode ν) (name : String) :
    (o.require (.str name)).erase name = o.erase name := by
  unfold require
  split
  · rfl
  · simp [erase]

theorem erase_set_of_ne (hother : other ≠ name) :
    (o.set (.str other) schema).erase name = (o.erase name).set (.str other) schema := by
  rw [erase, set, Entries.erase_insert_of_ne hother, erase, set]

/-- A schema that does not speak of a name has nothing to forget. -/
theorem erase_of_fresh (hproperties : .str name ∉ Entries.keys o.properties)
    (hrequired : .str name ∉ o.required) : o.erase name = o := by
  have hkept : o.required.filter (fun key => !key.same (.str name)) = o.required := by
    rw [List.filter_eq_self]
    intro key hkey
    have hne : key ≠ .str name := fun heq => hrequired (heq ▸ hkey)
    simp [Value.same_str_eq_false_iff.mpr hne]
  rw [erase, Entries.erase_of_not_mem hproperties, hkept]

end ObjectNode

variable {admits : Value → Value → Bool} {o : ObjectNode Node} {schema : Node} {name : String}
  {fields : Entries}

/-- What is left of an object schema speaks of the other names alone. -/
theorem conforms_erase_iff :
    Conforms admits (o.erase name) (fields.erase name) ↔
      (∀ key ∈ o.required, key ≠ .str name → fields.has key = true) ∧
        (∀ p ∈ o.properties, p.1 ≠ .str name →
          ∀ v, fields.get? p.1 = some v → accepts admits p.2 v = true) ∧
          ∀ e ∈ fields, e.1 ≠ .str name →
            Entries.has o.properties e.1 = true ∨ admitsOther admits o.additional e.2 = true := by
  constructor
  · intro hconforms
    obtain ⟨hrequired, hnamed, hother⟩ := hconforms
    refine ⟨?_, ?_, ?_⟩
    · intro key hkey hne
      rw [← Entries.has_erase_of_ne hne]
      exact hrequired key (ObjectNode.mem_required_erase_iff.mpr ⟨hkey, hne⟩)
    · intro p hp hne v hv
      apply hnamed p (Entries.mem_erase_iff.mpr ⟨hp, hne⟩) v
      rwa [Entries.get?_erase_of_ne hne]
    · intro e he hne
      rw [← Entries.has_erase_of_ne hne]
      exact hother e (Entries.mem_erase_iff.mpr ⟨he, hne⟩)
  · intro hbeside
    obtain ⟨hrequired, hnamed, hother⟩ := hbeside
    constructor
    · intro key hkey
      obtain ⟨hkey, hne⟩ := ObjectNode.mem_required_erase_iff.mp hkey
      rw [Entries.has_erase_of_ne hne]
      exact hrequired key hkey hne
    · intro p hp v hv
      obtain ⟨hp, hne⟩ := Entries.mem_erase_iff.mp hp
      apply hnamed p hp hne v
      rwa [Entries.get?_erase_of_ne hne] at hv
    · intro e he
      obtain ⟨he, hne⟩ := Entries.mem_erase_iff.mp he
      have hadmitted := hother e he hne
      rwa [← Entries.has_erase_of_ne hne] at hadmitted

/-- Where a name is absent, an object schema only asks that it is not required. -/
theorem conforms_iff_of_absent (habsent : fields.has (.str name) = false) :
    Conforms admits o fields ↔
      .str name ∉ o.required ∧ Conforms admits (o.erase name) (fields.erase name) := by
  rw [conforms_erase_iff]
  constructor
  · intro hconforms
    obtain ⟨hrequired, hnamed, hother⟩ := hconforms
    refine ⟨?_, fun key hkey _ => hrequired key hkey, fun p hp _ => hnamed p hp,
      fun e he _ => hother e he⟩
    intro hname
    have hpresent := hrequired _ hname
    simp [habsent] at hpresent
  · intro hbeside
    obtain ⟨hoptional, hrequired, hnamed, hother⟩ := hbeside
    constructor
    · intro key hkey
      exact hrequired key hkey fun heq => hoptional (heq ▸ hkey)
    · intro p hp v hv
      by_cases hne : p.1 = .str name
      · have hnone : fields.get? p.1 = none := by
          rw [hne]
          exact Entries.field?_eq_none_of_has habsent
        simp [hnone] at hv
      · exact hnamed p hp hne v hv
    · intro e he
      apply hother e he
      intro hname
      have hpresent : fields.has (.str name) = true := Entries.has_str_iff.mpr ⟨e, he, hname⟩
      simp [habsent] at hpresent

/-- Where a name is declared, its value conforms to its own schema and the rest to the rest. -/
theorem conforms_iff_of_property (hnodup : (Entries.keys o.properties).Nodup)
    (hproperty : o.property? name = some schema) :
    Conforms admits o fields ↔
      (.str name ∈ o.required → fields.has (.str name) = true) ∧
        (∀ v, fields.field? name = some v → accepts admits schema v = true) ∧
          Conforms admits (o.erase name) (fields.erase name) := by
  have hdeclared : (.str name, schema) ∈ o.properties := Entries.mem_of_field? hproperty
  rw [conforms_erase_iff]
  constructor
  · intro hconforms
    obtain ⟨hrequired, hnamed, hother⟩ := hconforms
    exact ⟨hrequired _, hnamed _ hdeclared, fun key hkey _ => hrequired key hkey,
      fun p hp _ => hnamed p hp, fun e he _ => hother e he⟩
  · intro hparts
    obtain ⟨hpresent, haccepts, hrequired, hnamed, hother⟩ := hparts
    constructor
    · intro key hkey
      by_cases hname : key = .str name
      · subst hname
        exact hpresent hkey
      · exact hrequired key hkey hname
    · intro p hp v hv
      by_cases hname : p.1 = .str name
      · obtain rfl : p = (.str name, schema) := List.inj_on_of_nodup_map hnodup hp hdeclared hname
        exact haccepts v hv
      · exact hnamed p hp hname v hv
    · intro e he
      by_cases hname : e.1 = .str name
      · left
        rw [hname]
        exact Entries.has_str_of_field? hproperty
      · exact hother e he hname

/-- Naming a property puts its schema in the place of what was said about the name. -/
theorem conforms_set_iff (hnodup : (Entries.keys o.properties).Nodup) :
    Conforms admits (o.set (.str name) schema) fields ↔
      (.str name ∈ o.required → fields.has (.str name) = true) ∧
        (∀ v, fields.field? name = some v → accepts admits schema v = true) ∧
          Conforms admits (o.erase name) (fields.erase name) := by
  have hproperty : (o.set (.str name) schema).property? name = some schema :=
    Entries.field?_insert_self
  have hkeys : (Entries.keys (o.set (.str name) schema).properties).Nodup :=
    Entries.nodup_keys_insert hnodup
  rw [conforms_iff_of_property hkeys hproperty, ObjectNode.erase_set, ObjectNode.required_set]

theorem conforms_require_iff :
    Conforms admits (o.require (.str name)) fields ↔
      fields.has (.str name) = true ∧ Conforms admits o fields := by
  constructor
  · intro hconforms
    obtain ⟨hrequired, hnamed, hother⟩ := hconforms
    rw [ObjectNode.properties_require] at hnamed hother
    rw [ObjectNode.additional_require] at hother
    have hkept : ∀ key ∈ o.required, fields.has key = true :=
      fun key hkey => hrequired key (mem_required_require_iff.mpr (Or.inl hkey))
    exact ⟨hrequired _ (mem_required_require_iff.mpr (Or.inr rfl)), hkept, hnamed, hother⟩
  · intro hboth
    obtain ⟨hpresent, hrequired, hnamed, hother⟩ := hboth
    constructor
    · intro key hkey
      rcases mem_required_require_iff.mp hkey with hkey | rfl
      · exact hrequired key hkey
      · exact hpresent
    · rwa [ObjectNode.properties_require]
    · rwa [ObjectNode.properties_require, ObjectNode.additional_require]

end ApiContract.Schema
