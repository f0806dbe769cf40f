import ApiContract.Proofs.Reference.Recursion
import Mathlib.Data.List.Permutation

/-!
# Pointers that pass no reference

A pointer is followed in a description as it stands.  One that passes no node with a reference leads
to the same place before and after the expansion: what it finds afterwards is the expansion of what
it found before.
-/

namespace ApiContract.Reference

variable {root node part target : Value} {segment : List Char} {path : List (List Char)}

/-- A pointer leads to a node, and no node that it passes holds a reference. -/
inductive LeadsPlainly : Value → List (List Char) → Value → Prop
  | here (node : Value) : LeadsPlainly node [] node
  | step {node part target : Value} {segment : List Char} {path : List (List Char)}
      (hplain : heldRef? node = none) (hstep : step node segment = .ok part)
      (hrest : LeadsPlainly part path target) : LeadsPlainly node (segment :: path) target

theorem step_map_eq_ok_iff {entries : Entries} :
    step (.map entries) segment = .ok part ↔
      Entries.field? entries (String.ofList segment) = some part := by
  rw [step]
  split
  · rename_i v hfield
    simp [hfield]
  · rename_i hfield
    simp [hfield]

/-- A step leads on from mappings and lists that are not empty only. -/
theorem truthy_of_step (hstep : step node segment = .ok part) : node.truthy = true := by
  obtain ⟨edge, hpart⟩ := exists_part_of_step hstep
  cases hpart with
  | item hitem =>
      have hmem := List.mem_of_getElem? hitem
      simpa [Value.truthy] using List.ne_nil_of_mem hmem
  | entry hentry => simpa [Value.truthy] using List.ne_nil_of_mem hentry

/-- A segment that is no number leads on from mappings only. -/
theorem exists_field?_of_step (hname : Text.wholeNumber? 10 segment = none)
    (hstep : step node segment = .ok part) :
    ∃ entries, node = .map entries ∧
      Entries.field? entries (String.ofList segment) = some part := by
  cases node with
  | map entries => exact ⟨entries, rfl, step_map_eq_ok_iff.mp hstep⟩
  | list items => simp [step, hname] at hstep
  | _ => simp [step] at hstep

theorem follow_cons_eq_ok_iff :
    follow node (segment :: path) = .ok target ↔
      ∃ next, step node segment = .ok next ∧ follow next path = .ok target := by
  rw [follow]
  cases step node segment <;> simp [bind, Except.bind]

theorem LeadsPlainly.follow (hleads : LeadsPlainly node path target) :
    follow node path = .ok target := by
  induction hleads with
  | here => rfl
  | step _ hstep _ ih => exact follow_cons_eq_ok_iff.mpr ⟨_, hstep, ih⟩

/-- What is under a name is still under it when all values are changed by their keys. -/
theorem field?_map_of_field? {entries : Entries} {name : String} {v : Value}
    (f : Value → Value → Value) (hfield : Entries.field? entries name = some v) :
    Entries.field? (entries.map fun entry => (entry.1, f entry.1 entry.2)) name =
      some (f (.str name) v) := by
  unfold Entries.field? Entries.get? at hfield ⊢
  obtain ⟨entry, hfind, rfl⟩ := Option.map_eq_some_iff.mp hfield
  have hsame := List.find?_some hfind
  have hkey : entry.1 = .str name := Value.eq_str_of_same hsame
  rw [List.find?_map]
  simp only [Function.comp_def, hfind, Option.map_some, hkey]

/-- A step from a plain node leads, after the expansion, to the expanded part. -/
theorem step_expandUnder (root : Value) (active : List String) (place : Location)
    (hplain : heldRef? node = none) (hstep : step node segment = .ok part) :
    ∃ edge, step (expandUnder root active place node).node segment =
      .ok (expandUnder root active (edge :: place) part).node := by
  rw [expandUnder_eq_walk]
  cases node with
  | map entries =>
      have hfield := step_map_eq_ok_iff.mp hstep
      refine ⟨.key (.str (String.ofList segment)), ?_⟩
      rw [walk_map hplain]
      apply step_map_eq_ok_iff.mpr
      rw [List.map_map]
      exact field?_map_of_field? (fun key v => (walk _ (.key key :: place) v).node) hfield
  | list items =>
      rw [step] at hstep
      split at hstep
      · rename_i v hitem
        cases hstep
        obtain ⟨index, hindex, hitem⟩ := Option.bind_eq_some_iff.mp hitem
        obtain ⟨i, hi, hitem⟩ := Option.bind_eq_some_iff.mp hitem
        refine ⟨.index i, ?_⟩
        rw [walk_list]
        simp [step, hindex, hi, hitem]
      · cases hstep
  | _ => simp [step] at hstep

/-- A pointer that passes no reference leads to the same place after the expansion. -/
theorem follow_expandUnder (root : Value) (active : List String) (place : Location)
    (hleads : LeadsPlainly node path target) :
    ∃ later, follow (expandUnder root active place node).node path =
      .ok (expandUnder root active later target).node := by
  induction hleads generalizing place with
  | here node => exact ⟨place, rfl⟩
  | step hplain hstep _ ih =>
      obtain ⟨edge, hafter⟩ := step_expandUnder root active place hplain hstep
      obtain ⟨later, hfollow⟩ := ih (edge :: place)
      exact ⟨later, follow_cons_eq_ok_iff.mpr ⟨_, hafter, hfollow⟩⟩

end ApiContract.Reference
