import ApiContract.Proofs.Reference.Recursion
import ApiContract.Proofs.Schema.Inheritance
import ApiContract.Description.Inline

/-!
# Values that have a JSON text

Whether a value has a JSON text is decided by its kinds of scalars and its keys.  The property
passes to whatever can be looked up in a value, survives insertion of what has it, and survives the
expansion of references, which takes nothing but parts of the description.
-/

namespace ApiContract.Value

variable {container key v : Value} {es : Entries}

theorem isJson_of_isKeyName (hkey : (Json.keyName? key).isSome = true) : key.isJson = true := by
  cases key with
  | int n => simpa [Json.keyName?, isJson] using hkey
  | _ => simp_all [Json.keyName?, isJson]

theorem isJson_of_get? (hjson : (Value.map es).isJson = true) (hget : Entries.get? es key = some v) :
    v.isJson = true := by
  obtain ⟨entry, hfind, rfl⟩ := Option.map_eq_some_iff.mp hget
  exact (isJson_map_iff.mp hjson entry (List.mem_of_find?_eq_some hfind)).2

/-- What stands in a value at a key or a position has a text if the value has. -/
theorem isJson_of_part? (hjson : container.isJson = true) (hpart : container.part? key = some v) :
    v.isJson = true := by
  cases container with
  | map es =>
      rw [part?] at hpart
      split at hpart
      · exact isJson_of_get? hjson hpart
      · cases hpart
  | list xs =>
      obtain ⟨index, -, hpart⟩ := Option.bind_eq_some_iff.mp hpart
      obtain ⟨i, -, hitem⟩ := Option.bind_eq_some_iff.mp hpart
      exact isJson_list_iff.mp hjson v (List.mem_of_getElem? hitem)
  | pair first second =>
      rw [isJson, Bool.and_eq_true] at hjson
      obtain ⟨index, -, hpart⟩ := Option.bind_eq_some_iff.mp hpart
      obtain ⟨i, -, hitem⟩ := Option.bind_eq_some_iff.mp hpart
      rcases List.mem_pair.mp (List.mem_of_getElem? hitem) with rfl | rfl
      · exact hjson.1
      · exact hjson.2
  | str s =>
      obtain ⟨index, -, hpart⟩ := Option.bind_eq_some_iff.mp hpart
      obtain ⟨i, -, hpart⟩ := Option.bind_eq_some_iff.mp hpart
      obtain ⟨c, -, hpart⟩ := Option.bind_eq_some_iff.mp hpart
      cases hpart
      rfl
  | bytes octets => simp [isJson] at hjson
  | _ => simp [part?] at hpart

theorem isJson_insert (hjson : (Value.map es).isJson = true)
    (hkey : (Json.keyName? key).isSome = true) (hv : v.isJson = true) :
    (Value.map (Entries.insert es key v)).isJson = true := by
  rw [isJson_map_iff] at hjson ⊢
  intro entry hentry
  rcases Entries.mem_of_mem_insert hentry with hold | ⟨rfl, rfl | hold⟩
  · exact hjson entry hold
  · exact ⟨hkey, hv⟩
  · obtain ⟨other, hother, heq⟩ := List.mem_map.mp hold
    exact ⟨heq ▸ (hjson other hother).1, hv⟩

end ApiContract.Value

namespace ApiContract.Reference

variable {root node part : Value} {active : List String} {place : Location}

theorem isJson_of_part {edge : Step} (hjson : node.isJson = true) (hpart : Part node edge part) :
    part.isJson = true := by
  cases hpart with
  | item hitem => exact Value.isJson_list_iff.mp hjson part (List.mem_of_getElem? hitem)
  | entry hentry => exact (Value.isJson_map_iff.mp hjson _ hentry).2

/-- A value of the same shape as one with a text has a text if its parts have. -/
theorem isJson_of_shape {other : Value} (hother : other.isJson = true)
    (hshape : node.shape = other.shape)
    (hparts : ∀ edge part, Part node edge part → part.isJson = true) : node.isJson = true := by
  cases alike_of_shape hshape with
  | list items =>
      refine Value.isJson_list_iff.mpr fun item hitem => ?_
      obtain ⟨i, hi⟩ := List.mem_iff_getElem?.mp hitem
      exact hparts _ _ (.item hi)
  | @map entries others hkeys =>
      refine Value.isJson_map_iff.mpr fun entry hentry => ⟨?_, hparts _ _ (.entry hentry)⟩
      have hkey : entry.1 ∈ Entries.keys others := hkeys ▸ List.mem_map_of_mem hentry
      obtain ⟨found, hmem, heq⟩ := List.mem_map.mp hkey
      rw [← heq]
      exact (Value.isJson_map_iff.mp hother _ hmem).1
  | scalar => exact hother

theorem isJson_expandUnder (hroot : root.isJson = true) (hinside : Inside root node)
    (hjson : node.isJson = true) : (expandUnder root active place node).node.isJson = true :=
  expandUnder_inherits (fun _ _ _ => isJson_of_part) (fun _ _ => isJson_of_shape) hroot
    hinside hjson

end ApiContract.Reference

namespace ApiContract.Description

theorem isJson_of_inline {root result : Value} (hinlined : (inline root).outcome = .ok result)
    (hroot : root.isJson = true) : result.isJson = true := by
  obtain ⟨-, rfl⟩ := outcome_inline_eq_ok_iff.mp hinlined
  rw [Reference.expand_eq_expandUnder]
  exact Reference.isJson_expandUnder hroot (.refl root) hroot

end ApiContract.Description
