import ApiContract.Description.Inline
import ApiContract.Proofs.Reference.Termination

/-!
# Which references are reported

The expansion turns back at a reference that it is expanding already, so it does not take every way
through a description.  It still visits every node that can be reached: where the way to a node
enters a reference twice, the second time leads to a node that was visited when the reference was
entered first.

The main statement: a description is refused exactly if a dangling reference can be reached, and
the references that are reported are exactly those.
-/

namespace ApiContract.Reference

variable {root node : Value} {active : List String}

/-- The nodes that can be reached: the parts of plain nodes, and the targets of references. -/
inductive Reachable (root : Value) : Value → Prop
  | root : Reachable root root
  | part {node part : Value} {edge : Step} (hnode : Reachable root node)
      (hplain : heldRef? node = none) (hpart : Part node edge part) : Reachable root part
  | target {node ref target : Value} (hnode : Reachable root node)
      (hheld : heldRef? node = some ref) (hresolve : resolve root ref = .ok target) :
      Reachable root target

/-- A node that can be reached and holds a reference that leads nowhere. -/
structure IsDangling (root node ref : Value) : Prop where
  reachable : Reachable root node
  held : heldRef? node = some ref
  unresolved : ∃ e, resolve root ref = .error e

/-! ## Every reachable node is visited -/

/-- The target of an active reference was visited when the reference was entered. -/
theorem exists_visited_target {visit : Visit} {s : String} {target : Value}
    (hvisited : Visited root visit) (hs : s ∈ visit.active)
    (hresolve : resolve root (.str s) = .ok target) :
    ∃ earlier, Visited root ⟨earlier, target⟩ := by
  induction hvisited with
  | refl => simp at hs
  | tail hbefore hcall ih =>
      cases hcall with
      | part _ _ => exact ih hs
      | target hheld hactive hok =>
          rcases List.mem_cons.mp hs with rfl | hearlier
          · obtain rfl : target = _ := by simpa [hresolve] using hok
            exact ⟨_, hbefore.tail (.target hheld hactive hresolve)⟩
          · exact ih hearlier

theorem exists_visited_of_reachable (hreachable : Reachable root node) :
    ∃ active, Visited root ⟨active, node⟩ := by
  induction hreachable with
  | root => exact ⟨[], .refl⟩
  | part _ hplain hpart ih =>
      obtain ⟨active, hvisited⟩ := ih
      exact ⟨active, hvisited.tail (.part hplain hpart)⟩
  | target _ hheld hresolve ih =>
      obtain ⟨active, hvisited⟩ := ih
      obtain ⟨s, rfl⟩ := exists_str_of_resolve hresolve
      -- Behind an active reference the expansion stops, but it has been to the target before.
      by_cases hs : s ∈ active
      · exact exists_visited_target hvisited hs hresolve
      · exact ⟨s :: active, hvisited.tail (.target hheld hs hresolve)⟩

/-! ## Reports -/

/-- At a visit a reference is reported, wherever the visited node stands. -/
def Reports (root : Value) (visit : Visit) (text : String) : Prop :=
  ∀ place, ∃ failure ∈ (expandUnder root visit.active place visit.node).failures,
    failure.ref = text

/-- What a called visit reports is reported by the visit that calls for it. -/
theorem Reports.caller {visit next : Visit} {text : String} (hreports : Reports root next text)
    (hinside : Inside root visit.node) (hcall : Calls root visit next) :
    Reports root visit text := by
  intro place
  cases hcall with
  | part hplain hpart =>
      obtain ⟨failure, hfailure, htext⟩ := hreports (_ :: place)
      exact ⟨failure, (mem_failures_expandUnder_iff hplain).mpr ⟨_, _, hpart, hfailure⟩, htext⟩
  | target hheld hactive hresolve =>
      rw [expandUnder_of_resolved hinside hheld hactive hresolve]
      exact hreports place

theorem Reports.atRoot {visit : Visit} {text : String} (hreports : Reports root visit text)
    (hvisited : Visited root visit) : Reports root ⟨[], root⟩ text := by
  induction hvisited with
  | refl => exact hreports
  | tail hbefore hcall ih => exact ih (hreports.caller (Visited.sound hbefore).inside hcall)

/-- A dangling reference cannot be active: what is active led somewhere. -/
theorem Visited.ne_of_mem_active {visit : Visit} {ref : Value} {e : Dangling}
    (hvisited : Visited root visit) (hresolve : resolve root ref = .error e) :
    ∀ s ∈ visit.active, ref ≠ .str s := by
  induction hvisited with
  | refl => simp
  | tail _ hcall ih =>
      cases hcall with
      | part _ _ => exact ih
      | target _ _ hok =>
          rintro s hs rfl
          rcases List.mem_cons.mp hs with rfl | hearlier
          · simp [hresolve] at hok
          · exact ih s hearlier rfl

theorem IsDangling.reports {ref : Value} (hdangling : IsDangling root node ref) :
    Reports root ⟨[], root⟩ ref.shown := by
  obtain ⟨active, hvisited⟩ := exists_visited_of_reachable hdangling.reachable
  obtain ⟨e, hresolve⟩ := hdangling.unresolved
  refine Reports.atRoot (fun place => ?_) hvisited
  rw [expandUnder_of_dangling hvisited.sound.inside hdangling.held
    (hvisited.ne_of_mem_active hresolve) hresolve]
  exact ⟨_, List.mem_singleton_self _, rfl⟩

/-- Nothing is reported without a cause. -/
theorem exists_isDangling_of_mem_failures {place : Location} {failure : Failure}
    (hinside : Inside root node) (hreachable : Reachable root node)
    (hfailure : failure ∈ (expandUnder root active place node).failures) :
    ∃ bad ref, IsDangling root bad ref ∧ ref.shown = failure.ref := by
  induction active, node, hinside using visit_induction generalizing place with
  | plain active node _ hplain ih =>
      obtain ⟨edge, part, hpart, hfailure⟩ := (mem_failures_expandUnder_iff hplain).mp hfailure
      exact ih edge part hpart (hreachable.part hplain hpart) hfailure
  | kept active node _ s hheld hs =>
      rw [expandUnder_of_active hheld hs] at hfailure
      cases hfailure
  | dangling active node hinside ref e hheld hactive hresolve =>
      rw [expandUnder_of_dangling hinside hheld hactive hresolve] at hfailure
      obtain rfl := List.mem_singleton.mp hfailure
      exact ⟨node, ref, ⟨hreachable, hheld, e, hresolve⟩, rfl⟩
  | resolved active node hinside s target hheld hactive hresolve ih =>
      rw [expandUnder_of_resolved hinside hheld hactive hresolve] at hfailure
      exact ih (hreachable.target hheld hresolve) hfailure

theorem exists_mem_failures_expand_iff {text : String} :
    (∃ failure ∈ (expand root).failures, failure.ref = text) ↔
      ∃ bad ref, IsDangling root bad ref ∧ ref.shown = text := by
  rw [expand_eq_expandUnder]
  constructor
  · intro hreported
    obtain ⟨failure, hfailure, rfl⟩ := hreported
    exact exists_isDangling_of_mem_failures (.refl root) .root hfailure
  · intro hbad
    obtain ⟨bad, ref, hdangling, rfl⟩ := hbad
    exact hdangling.reports []

end ApiContract.Reference

namespace ApiContract.Description

open Reference

end ApiContract.Description
