import ApiContract.Proofs.Reference.Recursion
import Mathlib.Data.List.Perm.Subperm
import Mathlib.Logic.Relation

/-!
# Expansion terminates

The recursion behind `expand` jumps from a reference to an arbitrary node of the description, which
may be larger than the node that holds the reference, or enclose it.  `Calls` is the relation from
one visit of that recursion to the next, without any budget, and `Solves` says that a function
obeys the equation of the recursion at every visit of a run.

The main statement: no run goes on for ever, on every branch of a run each reference is expanded at
most once, so expansions nest no deeper than the description has distinct references, and the
equation has a solution, all solutions of which agree with `expand` on the whole description.
-/

namespace ApiContract.Reference

variable {root node : Value} {active : List String} {place : Location}

/-- A visit of the recursion: the references that were expanded on the way to it, the latest first,
and the node that is visited. -/
structure Visit where
  active : List String
  node : Value

/-- From a visit to one that it calls for. -/
inductive Calls (root : Value) : Visit → Visit → Prop
  | part {active : List String} {node part : Value} {edge : Step}
      (hplain : heldRef? node = none) (hpart : Part node edge part) :
      Calls root ⟨active, node⟩ ⟨active, part⟩
  | target {active : List String} {node target : Value} {s : String}
      (hheld : heldRef? node = some (.str s)) (hactive : s ∉ active)
      (hresolve : resolve root (.str s) = .ok target) :
      Calls root ⟨active, node⟩ ⟨s :: active, target⟩

/-- The visits of the expansion of a description. -/
def Visited (root : Value) (visit : Visit) : Prop :=
  Relation.ReflTransGen (Calls root) ⟨[], root⟩ visit

/-! ## Branches -/

/-- What holds at every visit: the node comes from the description, and so do the references that
are being expanded, none of them twice. -/
structure Visit.Sound (root : Value) (visit : Visit) : Prop where
  inside : Inside root visit.node
  nodup : visit.active.Nodup
  known : visit.active ⊆ references root

theorem Visit.Sound.next {visit next : Visit} (hsound : visit.Sound root)
    (hcall : Calls root visit next) : next.Sound root := by
  cases hcall with
  | part hplain hpart => exact ⟨hsound.inside.part hpart, hsound.nodup, hsound.known⟩
  | target hheld hactive hresolve =>
      refine ⟨.target hresolve, List.nodup_cons.mpr ⟨hactive, hsound.nodup⟩, ?_⟩
      exact List.cons_subset.mpr
        ⟨hsound.inside (mem_references_of_heldRef? hheld), hsound.known⟩

theorem Visited.sound {visit : Visit} (hvisited : Visited root visit) : visit.Sound root := by
  induction hvisited with
  | refl => exact ⟨.refl root, List.nodup_nil, List.nil_subset _⟩
  | tail _ hcall ih => exact ih.next hcall

theorem Visit.Sound.length_active_le {visit : Visit} (hsound : visit.Sound root) :
    visit.active.length ≤ (distinctReferences root).length := by
  have hsubset : visit.active ⊆ distinctReferences root :=
    fun _ hs => mem_distinctReferences.mpr (hsound.known hs)
  exact (List.subperm_of_subset hsound.nodup hsubset).length_le

theorem Calls.of_plain {next : Visit} (hplain : heldRef? node = none)
    (hcall : Calls root ⟨active, node⟩ next) :
    ∃ edge part, Part node edge part ∧ next = ⟨active, part⟩ := by
  cases hcall with
  | part _ hpart => exact ⟨_, _, hpart, rfl⟩
  | target hheld => simp [hplain] at hheld

theorem Calls.of_heldRef? {next : Visit} {ref : Value} (hheld : heldRef? node = some ref)
    (hcall : Calls root ⟨active, node⟩ next) :
    ∃ s target, ref = .str s ∧ s ∉ active ∧ resolve root ref = .ok target ∧
      next = ⟨s :: active, target⟩ := by
  cases hcall with
  | part hplain => simp [hplain] at hheld
  | target hother hactive hresolve =>
      obtain rfl : ref = _ := Option.some.inj (hheld.symm.trans hother)
      exact ⟨_, _, rfl, hactive, hresolve, rfl⟩

theorem calls_acc (hinside : Inside root node) :
    Acc (fun next visit => Calls root visit next) ⟨active, node⟩ := by
  induction active, node, hinside using visit_induction with
  | plain active node _ hplain ih =>
      refine Acc.intro _ fun next hcall => ?_
      obtain ⟨edge, part, hpart, rfl⟩ := hcall.of_plain hplain
      exact ih edge part hpart
  | kept active node _ s hheld hs =>
      refine Acc.intro _ fun next hcall => ?_
      obtain ⟨_, _, ⟨⟩, hactive, _, _⟩ := hcall.of_heldRef? hheld
      exact absurd hs hactive
  | dangling active node _ ref e hheld _ hresolve =>
      refine Acc.intro _ fun next hcall => ?_
      obtain ⟨_, _, _, _, hok, _⟩ := hcall.of_heldRef? hheld
      simp [hresolve] at hok
  | resolved active node _ s target hheld _ hresolve ih =>
      refine Acc.intro _ fun next hcall => ?_
      obtain ⟨_, _, ⟨⟩, _, hok, rfl⟩ := hcall.of_heldRef? hheld
      obtain rfl : target = _ := Except.ok.inj (hresolve.symm.trans hok)
      exact ih

/-! ## The equation of the recursion -/

/-- Whether a reference is one of the texts that are being expanded. -/
def isAmong (active : List String) : Value → Bool
  | .str s => active.contains s
  | _ => false

/-- What happens at a reference when nothing but the active references limits the recursion. -/
def hopBeside (root : Value) (enter : List String → Location → Value → Expansion Value)
    (active : List String) (place : Location) (ref node : Value) : Expansion Value :=
  if isAmong active ref then ⟨node, []⟩
  else match resolve root ref with
    | .error e => ⟨node, [⟨ref.shown, place.text, e.message⟩]⟩
    | .ok target => enter (ref.shown :: active) place target

/-- A function obeys the equation of the recursion at all visits of a run. -/
def Solves (root : Value) (recursion : List String → Location → Value → Expansion Value) : Prop :=
  ∀ active node, Visited root ⟨active, node⟩ → ∀ place,
    recursion active place node = walk (hopBeside root recursion active) place node

section Equation

variable {enter : List String → Location → Value → Expansion Value}

theorem isAmong_eq_false {ref : Value} (hactive : ∀ s ∈ active, ref ≠ .str s) :
    isAmong active ref = false := by
  cases ref with
  | str s =>
      have hs : s ∉ active := fun hs => hactive s hs rfl
      simpa [isAmong] using hs
  | _ => rfl

theorem walk_hopBeside_of_active {s : String} (hheld : heldRef? node = some (.str s))
    (hactive : s ∈ active) : walk (hopBeside root enter active) place node = ⟨node, []⟩ := by
  rw [walk_of_heldRef? hheld]
  simp [hopBeside, isAmong, hactive]

theorem walk_hopBeside_of_dangling {ref : Value} {e : Dangling}
    (hheld : heldRef? node = some ref) (hactive : ∀ s ∈ active, ref ≠ .str s)
    (hresolve : resolve root ref = .error e) :
    walk (hopBeside root enter active) place node =
      ⟨node, [⟨ref.shown, place.text, e.message⟩]⟩ := by
  rw [walk_of_heldRef? hheld]
  simp [hopBeside, isAmong_eq_false hactive, hresolve]

theorem walk_hopBeside_of_resolved {s : String} {target : Value}
    (hheld : heldRef? node = some (.str s)) (hactive : s ∉ active)
    (hresolve : resolve root (.str s) = .ok target) :
    walk (hopBeside root enter active) place node = enter (s :: active) place target := by
  rw [walk_of_heldRef? hheld]
  simp [hopBeside, isAmong, hactive, hresolve]

end Equation

/-- Two solutions agree wherever a run takes them. -/
theorem Solves.congr {left right : List String → Location → Value → Expansion Value}
    (hleft : Solves root left) (hright : Solves root right) (hinside : Inside root node)
    (hvisited : Visited root ⟨active, node⟩) :
    left active place node = right active place node := by
  induction active, node, hinside using visit_induction generalizing place with
  | plain active node _ hplain ih =>
      rw [hleft active node hvisited, hright active node hvisited]
      refine walk_congr hplain fun edge part hpart => ?_
      have hnext : Visited root ⟨active, part⟩ := hvisited.tail (.part hplain hpart)
      rw [← hleft active part hnext, ← hright active part hnext]
      exact ih edge part hpart hnext
  | kept active node _ s hheld hs =>
      rw [hleft active node hvisited, hright active node hvisited,
        walk_hopBeside_of_active hheld hs, walk_hopBeside_of_active hheld hs]
  | dangling active node _ ref e hheld hactive hresolve =>
      rw [hleft active node hvisited, hright active node hvisited,
        walk_hopBeside_of_dangling hheld hactive hresolve,
        walk_hopBeside_of_dangling hheld hactive hresolve]
  | resolved active node _ s target hheld hactive hresolve ih =>
      rw [hleft active node hvisited, hright active node hvisited,
        walk_hopBeside_of_resolved hheld hactive hresolve,
        walk_hopBeside_of_resolved hheld hactive hresolve]
      exact ih (hvisited.tail (.target hheld hactive hresolve))

theorem expandUnder_eq_walk_hopBeside (hinside : Inside root node) :
    expandUnder root active place node =
      walk (hopBeside root (expandUnder root) active) place node := by
  induction active, node, hinside using visit_induction generalizing place with
  | plain active node _ hplain ih =>
      rw [expandUnder_eq_walk]
      refine walk_congr hplain fun edge part hpart => ?_
      rw [← expandUnder_eq_walk]
      exact ih edge part hpart
  | kept active node _ s hheld hs =>
      rw [expandUnder_of_active hheld hs, walk_hopBeside_of_active hheld hs]
  | dangling active node hinside ref e hheld hactive hresolve =>
      rw [expandUnder_of_dangling hinside hheld hactive hresolve,
        walk_hopBeside_of_dangling hheld hactive hresolve]
  | resolved active node hinside s target hheld hactive hresolve =>
      rw [expandUnder_of_resolved hinside hheld hactive hresolve,
        walk_hopBeside_of_resolved hheld hactive hresolve]

theorem solves_expandUnder (root : Value) : Solves root (expandUnder root) :=
  fun _ _ hvisited _ => expandUnder_eq_walk_hopBeside hvisited.sound.inside

/-- Expansion terminates on every description, whatever its references are.  No run of the
recursion goes on for ever.  On every branch the references that are expanded are distinct
references of the description, so their number bounds how deep expansions nest.  The equation of
the recursion has a solution, and whatever solves it takes the value `expand root` on the whole
description. -/
theorem expand_terminates (root : Value) :
    Acc (fun next visit => Calls root visit next) ⟨[], root⟩ ∧
      (∀ visit, Visited root visit →
        visit.active.Nodup ∧ visit.active ⊆ references root ∧
          visit.active.length ≤ (distinctReferences root).length) ∧
      (∃ recursion, Solves root recursion) ∧
      ∀ recursion, Solves root recursion → recursion [] [] root = expand root := by
  refine ⟨calls_acc (.refl root), ?_, ⟨expandUnder root, solves_expandUnder root⟩, ?_⟩
  · intro visit hvisited
    have hsound := hvisited.sound
    exact ⟨hsound.nodup, hsound.known, hsound.length_active_le⟩
  · intro recursion hsolves
    rw [expand_eq_expandUnder]
    exact hsolves.congr (solves_expandUnder root) (.refl root) .refl

end ApiContract.Reference
