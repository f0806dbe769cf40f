import ApiContract.Proofs.Reference.Document
import Mathlib.Data.List.Basic

/-!
# Expansion as a recursion

`expandWithin` recurses on a budget and carries the references that are still fresh.  This module
takes both away: `expandUnder` carries the references that are being expanded, and what it does at
a node depends on them, on the node and on nothing else.

* A node without a reference keeps its shape, and its parts are expanded one by one.
* A reference that is being expanded stays.
* A dangling reference stays and is a failure.
* Any other reference gives way to its target, expanded with that reference among the active ones.

Every visit of the recursion falls under one of these cases, which is what `visit_induction` says.
-/

namespace ApiContract.Reference

variable {root node : Value} {active : List String} {place : Location}

/-! ## One node of a walk -/

section Walk

variable {act : Location → Value → Value → Expansion Value}

theorem walkItems_eq (act : Location → Value → Value → Expansion Value) (place : Location)
    (i : Nat) (items : List Value) :
    walkItems act place i items =
      let walked := items.mapIdx fun j v => walk act (.index (i + j) :: place) v
      ⟨walked.map (·.node), walked.flatMap (·.failures)⟩ := by
  induction items generalizing i with
  | nil => rfl
  | cons v rest ih =>
      have hshift : ∀ j, i + 1 + j = i + (j + 1) := by omega
      simp [walkItems, ih, List.mapIdx_cons, hshift]

theorem walkEntries_eq (act : Location → Value → Value → Expansion Value) (place : Location)
    (entries : Entries) :
    walkEntries act place entries =
      let walked := entries.map fun e => (e.1, walk act (.key e.1 :: place) e.2)
      ⟨walked.map fun e => (e.1, e.2.node), walked.flatMap (·.2.failures)⟩ := by
  induction entries with
  | nil => rfl
  | cons entry rest ih => simp_all [walkEntries]

theorem walk_of_heldRef? {ref : Value} (hheld : heldRef? node = some ref) :
    walk act place node = act place ref node := by
  cases node with
  | map entries =>
      rw [heldRef?] at hheld
      rw [walk, hheld]
  | _ => simp [heldRef?] at hheld

theorem walk_list (items : List Value) :
    walk act place (.list items) =
      let walked := items.mapIdx fun j v => walk act (.index j :: place) v
      ⟨.list (walked.map (·.node)), walked.flatMap (·.failures)⟩ := by
  simp [walk, walkItems_eq]

theorem walk_map {entries : Entries} (hplain : heldRef? (.map entries) = none) :
    walk act place (.map entries) =
      let walked := entries.map fun e => (e.1, walk act (.key e.1 :: place) e.2)
      ⟨.map (walked.map fun e => (e.1, e.2.node)), walked.flatMap (·.2.failures)⟩ := by
  rw [heldRef?] at hplain
  rw [walk, hplain, walkEntries_eq]

theorem walk_scalar (hscalar : node.shape = .scalar node) : walk act place node = ⟨node, []⟩ := by
  cases node with
  | list items => simp [Value.shape] at hscalar
  | map entries => simp [Value.shape] at hscalar
  | _ => rfl

theorem shape_walk (hplain : heldRef? node = none) :
    (walk act place node).node.shape = node.shape := by
  cases node with
  | list items => simp [walk_list, Value.shape]
  | map entries => simp [walk_map hplain, Value.shape, Entries.keys]
  | _ => rw [walk_scalar rfl]

/-- The parts of a walked node are the walked parts. -/
theorem part_walk_iff (hplain : heldRef? node = none) {edge : Step} {after : Value} :
    Part (walk act place node).node edge after ↔
      ∃ before, Part node edge before ∧ after = (walk act (edge :: place) before).node := by
  cases node with
  | list items =>
      rw [walk_list]
      constructor
      · intro hpart
        rcases hpart with ⟨hitem⟩ | _
        rw [List.getElem?_map, List.getElem?_mapIdx, Option.map_map] at hitem
        obtain ⟨before, hbefore, rfl⟩ := Option.map_eq_some_iff.mp hitem
        exact ⟨before, .item hbefore, rfl⟩
      · intro hbefore
        obtain ⟨before, ⟨hitem⟩ | _, rfl⟩ := hbefore
        apply Part.item
        rw [List.getElem?_map, List.getElem?_mapIdx, hitem]
        rfl
  | map entries =>
      rw [walk_map hplain]
      constructor
      · intro hpart
        rcases hpart with _ | ⟨hentry⟩
        rw [List.map_map] at hentry
        obtain ⟨⟨key, before⟩, hbefore, heq⟩ := List.mem_map.mp hentry
        obtain ⟨rfl, rfl⟩ := Prod.mk.inj heq
        exact ⟨before, .entry hbefore, rfl⟩
      · intro hbefore
        obtain ⟨before, _ | ⟨hentry⟩, rfl⟩ := hbefore
        apply Part.entry
        rw [List.map_map]
        exact List.mem_map.mpr ⟨_, hentry, rfl⟩
  | _ =>
      rw [walk_scalar rfl]
      constructor
      · rintro ⟨⟩
      · rintro ⟨_, ⟨⟩, _⟩

/-- The failures of a walked node are those of its parts. -/
theorem mem_failures_walk_iff (hplain : heldRef? node = none) {failure : Failure} :
    failure ∈ (walk act place node).failures ↔
      ∃ edge part, Part node edge part ∧ failure ∈ (walk act (edge :: place) part).failures := by
  cases node with
  | list items =>
      rw [walk_list]
      simp only [List.mem_flatMap, List.mem_mapIdx]
      constructor
      · intro hinner
        obtain ⟨_, ⟨i, hi, rfl⟩, hfailure⟩ := hinner
        exact ⟨_, _, .item (List.getElem?_eq_getElem hi), hfailure⟩
      · intro hpart
        obtain ⟨_, _, ⟨hitem⟩ | _, hfailure⟩ := hpart
        obtain ⟨hi, rfl⟩ := List.getElem?_eq_some_iff.mp hitem
        exact ⟨_, ⟨_, hi, rfl⟩, hfailure⟩
  | map entries =>
      rw [walk_map hplain]
      simp only [List.mem_flatMap, List.mem_map]
      constructor
      · intro hinner
        obtain ⟨_, ⟨entry, hentry, rfl⟩, hfailure⟩ := hinner
        exact ⟨_, _, .entry hentry, hfailure⟩
      · intro hpart
        obtain ⟨_, _, _ | ⟨hentry⟩, hfailure⟩ := hpart
        exact ⟨_, ⟨_, hentry, rfl⟩, hfailure⟩
  | _ =>
      rw [walk_scalar rfl]
      constructor
      · rintro ⟨⟩
      · rintro ⟨_, _, ⟨⟩, _⟩

/-- A plain node is walked alike by two walks that agree on its parts. -/
theorem walk_congr {other : Location → Value → Value → Expansion Value}
    (hplain : heldRef? node = none)
    (hparts : ∀ edge part, Part node edge part →
      walk act (edge :: place) part = walk other (edge :: place) part) :
    walk act place node = walk other place node := by
  cases node with
  | list items =>
      have hitems : (items.mapIdx fun j v => walk act (.index j :: place) v) =
          items.mapIdx fun j v => walk other (.index j :: place) v := by
        refine List.ext_getElem (by simp) fun i hi _ => ?_
        rw [List.getElem_mapIdx, List.getElem_mapIdx]
        exact hparts _ _ (.item (List.getElem?_eq_getElem _))
      rw [walk_list, walk_list, hitems]
  | map entries =>
      have hentries : (entries.map fun e => (e.1, walk act (.key e.1 :: place) e.2)) =
          entries.map fun e => (e.1, walk other (.key e.1 :: place) e.2) :=
        List.map_congr_left fun e he => by rw [hparts _ _ (.entry he)]
      rw [walk_map hplain, walk_map hplain, hentries]
  | _ => rw [walk_scalar rfl, walk_scalar rfl]

/-- The node that a plain node becomes is decided by what its parts become, wherever it stands. -/
theorem node_walk_congr {other : Location → Value → Value → Expansion Value}
    {otherPlace : Location} (hplain : heldRef? node = none)
    (hparts : ∀ edge part, Part node edge part →
      (walk act (edge :: place) part).node = (walk other (edge :: otherPlace) part).node) :
    (walk act place node).node = (walk other otherPlace node).node := by
  cases node with
  | list items =>
      rw [walk_list, walk_list]
      refine congrArg Value.list (List.ext_getElem (by simp) fun i hi _ => ?_)
      rw [List.getElem_map, List.getElem_map, List.getElem_mapIdx, List.getElem_mapIdx]
      exact hparts _ _ (.item (List.getElem?_eq_getElem _))
  | map entries =>
      rw [walk_map hplain, walk_map hplain]
      refine congrArg Value.map ?_
      rw [List.map_map, List.map_map]
      refine List.map_congr_left fun e he => ?_
      exact congrArg (Prod.mk e.1) (hparts _ _ (.entry he))
  | _ => rw [walk_scalar rfl, walk_scalar rfl]

/-- A plain node whose parts stay as they are stays as it is. -/
theorem walk_eq_self_of_parts (hplain : heldRef? node = none)
    (hparts : ∀ edge part, Part node edge part →
      walk act (edge :: place) part = ⟨part, []⟩) : walk act place node = ⟨node, []⟩ := by
  cases node with
  | list items =>
      have hitems : (items.mapIdx fun j v => walk act (.index j :: place) v) =
          items.map fun v => ⟨v, []⟩ := by
        refine List.ext_getElem (by simp) fun i hi _ => ?_
        rw [List.getElem_mapIdx, List.getElem_map]
        exact hparts _ _ (.item (List.getElem?_eq_getElem _))
      rw [walk_list, hitems]
      simp [Function.comp_def]
  | map entries =>
      have hentries : (entries.map fun e => (e.1, walk act (.key e.1 :: place) e.2)) =
          entries.map fun e => (e.1, ⟨e.2, []⟩) :=
        List.map_congr_left fun e he => by rw [hparts _ _ (.entry he)]
      rw [walk_map hplain, hentries]
      simp [Function.comp_def, List.flatMap_map]
  | _ => exact walk_scalar rfl

end Walk

/-! ## The budget does not matter -/

/-- A reference is entered only while it is fresh. -/
theorem hop_congr {fresh : List String}
    {enter other : List String → Location → Value → Expansion Value}
    (henter : ∀ s ∈ fresh, enter (fresh.filter (· ≠ s)) = other (fresh.filter (· ≠ s))) :
    hop root enter fresh = hop root other fresh := by
  funext place ref node
  unfold hop
  split
  · rfl
  · rename_i hactive
    cases hresolve : resolve root ref with
    | error e => rfl
    | ok target =>
        obtain ⟨s, rfl⟩ := exists_str_of_resolve hresolve
        have hfresh : s ∈ fresh := by simpa [isActive] using hactive
        exact congrFun (congrFun (henter s hfresh) place) target

theorem length_filter_lt {fresh : List String} {s : String} (hs : s ∈ fresh) :
    (fresh.filter (· ≠ s)).length < fresh.length :=
  List.length_filter_lt_length_iff_exists.mpr ⟨s, hs, by simp⟩

/-- Two budgets that both cover the fresh references give the same expansion. -/
theorem expandWithin_congr {budget other : Nat} {fresh : List String}
    (hbudget : fresh.length ≤ budget) (hother : fresh.length ≤ other) :
    expandWithin root budget fresh = expandWithin root other fresh := by
  induction budget generalizing other fresh with
  | zero =>
      obtain rfl : fresh = [] := List.length_eq_zero_iff.mp (Nat.le_zero.mp hbudget)
      cases other with
      | zero => rfl
      | succ other => exact congrArg walk (hop_congr (by simp))
  | succ budget ih =>
      cases other with
      | zero =>
          obtain rfl : fresh = [] := List.length_eq_zero_iff.mp (Nat.le_zero.mp hother)
          exact congrArg walk (hop_congr (by simp))
      | succ other =>
          refine congrArg walk (hop_congr fun s hs => ?_)
          have hlt := length_filter_lt hs
          exact ih (by omega) (by omega)

/-- The expansion while just the references of `fresh` are fresh. -/
def expandFresh (root : Value) (fresh : List String) : Location → Value → Expansion Value :=
  expandWithin root fresh.length fresh

theorem expandFresh_eq_walk (root : Value) (fresh : List String) :
    expandFresh root fresh = walk (hop root (expandFresh root) fresh) := by
  have hbudget : expandFresh root fresh = expandWithin root (fresh.length + 1) fresh :=
    expandWithin_congr (Nat.le_refl _) (Nat.le_succ _)
  rw [hbudget]
  refine congrArg walk (hop_congr fun s hs => ?_)
  exact expandWithin_congr (Nat.le_of_lt (length_filter_lt hs)) (Nat.le_refl _)

/-! ## Active references in place of fresh ones -/

/-- The references of a description that are not active. -/
def unvisited (root : Value) (active : List String) : List String :=
  (distinctReferences root).filter (!active.contains ·)

/-- Expands a node of the description `root` while the references `active` are being expanded. -/
def expandUnder (root : Value) (active : List String) : Location → Value → Expansion Value :=
  expandFresh root (unvisited root active)

theorem expand_eq_expandUnder (root : Value) : expand root = expandUnder root [] [] root := by
  simp [expand, expandUnder, expandFresh, unvisited]

theorem mem_distinctReferences {s : String} :
    s ∈ distinctReferences root ↔ s ∈ references root := by
  simp [distinctReferences, List.mem_eraseDups]

theorem mem_unvisited {s : String} :
    s ∈ unvisited root active ↔ s ∈ references root ∧ s ∉ active := by
  simp [unvisited, mem_distinctReferences]

theorem filter_unvisited (root : Value) (active : List String) (s : String) :
    (unvisited root active).filter (· ≠ s) = unvisited root (s :: active) := by
  simp only [unvisited, List.filter_filter]
  refine List.filter_congr fun other _ => ?_
  simp

theorem expandUnder_eq_walk (root : Value) (active : List String) :
    expandUnder root active = walk (hop root (expandFresh root) (unvisited root active)) :=
  expandFresh_eq_walk root _

/-! ## What happens at a node -/

theorem shape_expandUnder (hplain : heldRef? node = none) :
    (expandUnder root active place node).node.shape = node.shape := by
  rw [expandUnder_eq_walk, shape_walk hplain]

theorem part_expandUnder_iff (hplain : heldRef? node = none) {edge : Step} {after : Value} :
    Part (expandUnder root active place node).node edge after ↔
      ∃ before, Part node edge before ∧
        after = (expandUnder root active (edge :: place) before).node := by
  rw [expandUnder_eq_walk, part_walk_iff hplain]

theorem part_expandUnder (root : Value) (active : List String) (place : Location)
    (hplain : heldRef? node = none) {edge : Step} {part : Value} (hpart : Part node edge part) :
    Part (expandUnder root active place node).node edge
      (expandUnder root active (edge :: place) part).node :=
  (part_expandUnder_iff hplain).mpr ⟨part, hpart, rfl⟩

theorem mem_failures_expandUnder_iff (hplain : heldRef? node = none) {failure : Failure} :
    failure ∈ (expandUnder root active place node).failures ↔
      ∃ edge part, Part node edge part ∧
        failure ∈ (expandUnder root active (edge :: place) part).failures := by
  rw [expandUnder_eq_walk, mem_failures_walk_iff hplain]

/-- A plain node that is expanded without failures has parts that are. -/
theorem failures_eq_nil_of_part {edge : Step} {part : Value} (hplain : heldRef? node = none)
    (hsucceeds : (expandUnder root active place node).failures = [])
    (hpart : Part node edge part) :
    (expandUnder root active (edge :: place) part).failures = [] := by
  refine List.eq_nil_iff_forall_not_mem.mpr fun failure hfailure => ?_
  have hmem := (mem_failures_expandUnder_iff hplain).mpr ⟨edge, part, hpart, hfailure⟩
  simp [hsucceeds] at hmem

theorem expandUnder_of_active {s : String} (hheld : heldRef? node = some (.str s))
    (hactive : s ∈ active) : expandUnder root active place node = ⟨node, []⟩ := by
  have hstale : s ∉ unvisited root active := by simp [mem_unvisited, hactive]
  rw [expandUnder_eq_walk, walk_of_heldRef? hheld]
  simp [hop, isActive, hstale]

/-- A node whose references are all references of the description. -/
def Inside (root node : Value) : Prop :=
  references node ⊆ references root

/-- A reference that a node of the description holds is fresh as long as it is not active. -/
theorem isActive_unvisited {ref : Value} (hinside : Inside root node)
    (hheld : heldRef? node = some ref) (hactive : ∀ s ∈ active, ref ≠ .str s) :
    isActive (unvisited root active) ref = false := by
  cases ref with
  | str s =>
      have hmem : s ∈ references root := hinside (mem_references_of_heldRef? hheld)
      have hs : s ∉ active := fun hs => hactive s hs rfl
      simp [isActive, mem_unvisited, hmem, hs]
  | _ => rfl

theorem expandUnder_of_dangling {ref : Value} {e : Dangling} (hinside : Inside root node)
    (hheld : heldRef? node = some ref) (hactive : ∀ s ∈ active, ref ≠ .str s)
    (hresolve : resolve root ref = .error e) :
    expandUnder root active place node = ⟨node, [⟨ref.shown, place.text, e.message⟩]⟩ := by
  rw [expandUnder_eq_walk, walk_of_heldRef? hheld, hop,
    isActive_unvisited hinside hheld hactive, hresolve]
  rfl

theorem expandUnder_of_resolved {s : String} {target : Value} (hinside : Inside root node)
    (hheld : heldRef? node = some (.str s)) (hactive : s ∉ active)
    (hresolve : resolve root (.str s) = .ok target) :
    expandUnder root active place node = expandUnder root (s :: active) place target := by
  have hfresh : ∀ other ∈ active, Value.str s ≠ .str other := by
    rintro other hother heq
    cases heq
    exact hactive hother
  rw [expandUnder_eq_walk, walk_of_heldRef? hheld, hop,
    isActive_unvisited hinside hheld hfresh, hresolve]
  exact congrArg (fun fresh => expandFresh root fresh place target)
    (filter_unvisited root active s)

/-! ## Every visit is one of four -/

theorem Inside.refl (root : Value) : Inside root root := List.Subset.refl _

theorem Inside.part {edge : Step} {part : Value} (hinside : Inside root node)
    (hpart : Part node edge part) : Inside root part :=
  List.Subset.trans (references_subset_of_part hpart) hinside

theorem Inside.target {ref target : Value} (hresolve : resolve root ref = .ok target) :
    Inside root target :=
  references_subset_of_resolve hresolve

theorem sizeOf_lt_of_part {edge : Step} {part : Value} (hpart : Part node edge part) :
    sizeOf part < sizeOf node := by
  cases hpart with
  | item hitem =>
      have hlt := List.sizeOf_lt_of_mem (List.mem_of_getElem? hitem)
      simp only [Value.list.sizeOf_spec]
      omega
  | entry hentry =>
      have hlt := List.sizeOf_lt_of_mem hentry
      simp only [Value.map.sizeOf_spec, Prod.mk.sizeOf_spec] at hlt ⊢
      omega

/-- Entering a reference leaves fewer references unvisited. -/
theorem length_unvisited_lt {s : String} (hmem : s ∈ references root) (hactive : s ∉ active) :
    (unvisited root (s :: active)).length < (unvisited root active).length := by
  rw [← filter_unvisited]
  exact length_filter_lt (mem_unvisited.mpr ⟨hmem, hactive⟩)

/-- Induction along the recursion: over the unvisited references first and the node second. -/
theorem visit_induction {motive : ∀ (_ : List String) (node : Value), Inside root node → Prop}
    (plain : ∀ active node (hinside : Inside root node), heldRef? node = none →
      (∀ edge part (hpart : Part node edge part), motive active part (hinside.part hpart)) →
      motive active node hinside)
    (kept : ∀ active node (hinside : Inside root node) s, heldRef? node = some (.str s) →
      s ∈ active → motive active node hinside)
    (dangling : ∀ active node (hinside : Inside root node) ref e, heldRef? node = some ref →
      (∀ s ∈ active, ref ≠ .str s) → resolve root ref = .error e → motive active node hinside)
    (resolved : ∀ active node (hinside : Inside root node) s target
      (_ : heldRef? node = some (.str s)) (_ : s ∉ active)
      (hresolve : resolve root (.str s) = .ok target),
      motive (s :: active) target (.target hresolve) → motive active node hinside)
    (active : List String) (node : Value) (hinside : Inside root node) :
    motive active node hinside := by
  cases hheld : heldRef? node with
  | none =>
      refine plain active node hinside hheld fun edge part hpart => ?_
      -- No reference is entered here, so it is the node that has to shrink.
      have hlt := sizeOf_lt_of_part hpart
      exact visit_induction plain kept dangling resolved active part _
  | some ref =>
      by_cases hactive : ∃ s ∈ active, ref = .str s
      · obtain ⟨s, hs, rfl⟩ := hactive
        exact kept active node hinside s hheld hs
      · have hfresh : ∀ s ∈ active, ref ≠ .str s := fun s hs heq => hactive ⟨s, hs, heq⟩
        cases hresolve : resolve root ref with
        | error e => exact dangling active node hinside ref e hheld hfresh hresolve
        | ok target =>
            obtain ⟨s, rfl⟩ := exists_str_of_resolve hresolve
            have hs : s ∉ active := fun hs => hfresh s hs rfl
            have hmem : s ∈ references root := hinside (mem_references_of_heldRef? hheld)
            have hlt := length_unvisited_lt hmem hs
            refine resolved active node hinside s target hheld hs hresolve ?_
            exact visit_induction plain kept dangling resolved (s :: active) target _
termination_by ((unvisited root active).length, sizeOf node)

/-- What passes from a node to its parts, and to a node from its parts and from another of its shape,
an expanded node has. -/
theorem expandUnder_inherits {P : Value → Prop}
    (hparts : ∀ node edge part, P node → Part node edge part → P part)
    (hshape : ∀ node other, P other → node.shape = other.shape →
      (∀ edge part, Part node edge part → P part) → P node)
    (hroot : P root) (hinside : Inside root node) (hnode : P node) :
    P (expandUnder root active place node).node := by
  induction active, node, hinside using visit_induction generalizing place with
  | plain active node _ hplain ih =>
      refine hshape _ node hnode (shape_expandUnder hplain) fun edge after hafter => ?_
      obtain ⟨part, hpart, rfl⟩ := (part_expandUnder_iff hplain).mp hafter
      exact ih edge part hpart (hparts _ _ _ hnode hpart)
  | kept active node _ s hheld hs =>
      rw [expandUnder_of_active hheld hs]
      exact hnode
  | dangling active node hinside ref e hheld hactive hresolve =>
      rw [expandUnder_of_dangling hinside hheld hactive hresolve]
      exact hnode
  | resolved active node hinside s target hheld hactive hresolve ih =>
      rw [expandUnder_of_resolved hinside hheld hactive hresolve]
      exact ih (resolve_inherits hparts hroot hresolve)

end ApiContract.Reference
