import ApiContract.Proofs.Value.Entries
import ApiContract.Reference.Expand

/-!
# Nodes of a description

The theory of expansion speaks of a description through three notions: the reference that a node
holds, the parts of a node, and its shape, which is all of it apart from its parts.  The texts of
references never grow on the way from a node to its parts or along a pointer; this is what bounds
the expansion.
-/

namespace ApiContract

/-- All of a value apart from its parts.  A list is known by its length and a mapping by its keys
in order. -/
inductive Shape where
  | scalar (v : Value)
  | list (length : Nat)
  | map (keys : List Value)

def Value.shape : Value → Shape
  | .list items => .list items.length
  | .map entries => .map (Entries.keys entries)
  | v => .scalar v

namespace Reference

/-- The reference that a node holds: what stands under `$ref` in a mapping. -/
def heldRef? : Value → Option Value
  | .map entries => Entries.field? entries refField
  | _ => none

/-- A part of a node: an item of a list or a value of a mapping, and the step that leads to it. -/
inductive Part : Value → Step → Value → Prop
  | item {items : List Value} {i : Nat} {v : Value} (hitem : items[i]? = some v) :
      Part (.list items) (.index i) v
  | entry {entries : Entries} {key v : Value} (hentry : (key, v) ∈ entries) :
      Part (.map entries) (.key key) v

/-- Values of one shape are lists, or mappings with the same keys, or the same scalar. -/
inductive Alike : Value → Value → Prop
  | list (items others : List Value) : Alike (.list items) (.list others)
  | map {entries others : Entries} (hkeys : Entries.keys entries = Entries.keys others) :
      Alike (.map entries) (.map others)
  | scalar {v : Value} (hscalar : v.shape = .scalar v) : Alike v v

theorem eq_of_shape_eq_scalar {left right : Value} (hshape : left.shape = .scalar right) :
    left = right := by
  cases left with
  | list items => cases hshape
  | map entries => cases hshape
  | _ => exact Shape.scalar.inj hshape

theorem alike_of_shape {left right : Value} (hshape : left.shape = right.shape) :
    Alike left right := by
  cases left with
  | list items =>
      cases right with
      | list others => exact .list items others
      | _ => simp [Value.shape] at hshape
  | map entries =>
      cases right with
      | map others => exact .map (by simpa [Value.shape] using hshape)
      | _ => simp [Value.shape] at hshape
  | _ =>
      obtain rfl := eq_of_shape_eq_scalar hshape.symm
      exact .scalar rfl

/-- Whether a node holds a reference is decided by its shape. -/
theorem heldRef?_eq_none_of_shape {left right : Value} (hshape : left.shape = right.shape)
    (hleft : heldRef? left = none) : heldRef? right = none := by
  cases alike_of_shape hshape with
  | list => rfl
  | map hkeys =>
      rw [heldRef?, Entries.field?_eq_none_iff] at hleft ⊢
      rwa [← hkeys]
  | scalar => exact hleft

/-! ## References never grow -/

theorem references_subset_itemReferences {items : List Value} {v : Value} (hv : v ∈ items) :
    references v ⊆ itemReferences items := by
  induction items with
  | nil => simp at hv
  | cons item rest ih =>
      rw [itemReferences]
      rcases List.mem_cons.mp hv with rfl | hrest
      · exact List.subset_append_left _ _
      · exact List.Subset.trans (ih hrest) (List.subset_append_right _ _)

theorem mem_entryReferences_cons {key v : Value} {rest : Entries} {s : String} :
    s ∈ entryReferences ((key, v) :: rest) ↔
      (key = .str refField ∧ v = .str s) ∨ s ∈ references v ∨ s ∈ entryReferences rest := by
  rw [entryReferences.eq_def]
  simp only [List.mem_append, or_assoc]
  refine or_congr_left ?_
  split
  · rename_i name ref
    by_cases hname : name = refField <;> simp [hname, eq_comm]
  · rename_i hother
    constructor
    · intro hs
      cases hs
    · rintro ⟨rfl, rfl⟩
      exact absurd rfl (hother _ _ rfl)

theorem references_subset_entryReferences {entries : Entries} {key v : Value}
    (hentry : (key, v) ∈ entries) : references v ⊆ entryReferences entries := by
  induction entries with
  | nil => simp at hentry
  | cons entry rest ih =>
      intro s hs
      apply mem_entryReferences_cons.mpr
      rcases List.mem_cons.mp hentry with rfl | hrest
      · exact Or.inr (Or.inl hs)
      · exact Or.inr (Or.inr (ih hrest hs))

theorem mem_entryReferences {entries : Entries} {s : String}
    (hentry : (.str refField, .str s) ∈ entries) : s ∈ entryReferences entries := by
  induction entries with
  | nil => simp at hentry
  | cons entry rest ih =>
      apply mem_entryReferences_cons.mpr
      rcases List.mem_cons.mp hentry with rfl | hrest
      · exact Or.inl ⟨rfl, rfl⟩
      · exact Or.inr (Or.inr (ih hrest))

theorem mem_references_of_heldRef? {node : Value} {s : String}
    (hheld : heldRef? node = some (.str s)) : s ∈ references node := by
  cases node with
  | map entries =>
      rw [references]
      exact mem_entryReferences (Entries.mem_of_field? hheld)
  | _ => simp [heldRef?] at hheld

theorem references_subset_of_part {node part : Value} {edge : Step} (hpart : Part node edge part) :
    references part ⊆ references node := by
  cases hpart with
  | item hitem =>
      rw [references.eq_1]
      exact references_subset_itemReferences (List.mem_of_getElem? hitem)
  | entry hentry =>
      rw [references.eq_2]
      exact references_subset_entryReferences hentry

/-- A step of a pointer leads to a part. -/
theorem exists_part_of_step {node v : Value} {segment : List Char}
    (hstep : step node segment = .ok v) : ∃ edge, Part node edge v := by
  unfold step at hstep
  split at hstep
  · split at hstep
    · rename_i hfield
      cases hstep
      exact ⟨_, .entry (Entries.mem_of_field? hfield)⟩
    · cases hstep
  · split at hstep
    · rename_i hitem
      cases hstep
      obtain ⟨index, -, hitem⟩ := Option.bind_eq_some_iff.mp hitem
      obtain ⟨i, -, hitem⟩ := Option.bind_eq_some_iff.mp hitem
      exact ⟨_, .item hitem⟩
    · cases hstep
  · cases hstep

/-- What all parts of a node inherit from it, every node inherits that a pointer leads to. -/
theorem follow_inherits {P : Value → Prop}
    (hparts : ∀ node edge part, P node → Part node edge part → P part)
    {path : List (List Char)} {node target : Value} (hnode : P node)
    (hfollow : follow node path = .ok target) : P target := by
  induction path generalizing node with
  | nil =>
      cases hfollow
      exact hnode
  | cons segment rest ih =>
      rw [follow] at hfollow
      cases hstep : step node segment with
      | error e => simp [hstep, bind, Except.bind] at hfollow
      | ok v =>
          rw [hstep] at hfollow
          obtain ⟨edge, hpart⟩ := exists_part_of_step hstep
          exact ih (hparts _ _ _ hnode hpart) hfollow

theorem resolve_inherits {P : Value → Prop}
    (hparts : ∀ node edge part, P node → Part node edge part → P part)
    {root ref target : Value} (hroot : P root) (hresolve : resolve root ref = .ok target) :
    P target := by
  unfold resolve at hresolve
  split at hresolve
  · cases hresolve
  · exact follow_inherits hparts hroot hresolve

theorem references_subset_of_resolve {root ref target : Value}
    (hresolve : resolve root ref = .ok target) : references target ⊆ references root := by
  refine resolve_inherits (P := (references · ⊆ references root)) ?_ ?_ hresolve
  · intro node edge part hnode hpart
    exact List.Subset.trans (references_subset_of_part hpart) hnode
  · exact List.Subset.refl _

/-- Only a text leads anywhere. -/
theorem exists_str_of_resolve {root ref target : Value}
    (hresolve : resolve root ref = .ok target) : ∃ s, ref = .str s := by
  cases ref with
  | str s => exact ⟨s, rfl⟩
  | _ => simp [resolve, parse?] at hresolve

end Reference

end ApiContract
