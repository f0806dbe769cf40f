import ApiContract.Proofs.Reference.Failures
import ApiContract.Proofs.Reference.Locations

/-!
# What is reported, and where

A dangling reference is reported once for every *way* to it: a walk from the root along parts and
references that follows no reference twice.  The location of a report is the path of that walk, in
which a reference that was followed leaves no trace.  So a node that several references lead to is
reported through each of them, at a place that the description itself need not have; only where the
walk follows no reference is the location a pointer to the node.

The main statement: where `inline` refuses a description, its failures and the ways to dangling
references correspond one to one, no two failures have the same location, and a way that follows no
reference is located where the dangling reference stands.
-/

namespace ApiContract.Reference

variable {root node : Value} {active : List String} {place : Location}

/-- A way to a node that holds a dangling reference. -/
structure Way where
  path : List Step
  trail : List String
  bad : Value
  ref : Value
  reason : Dangling

/-- From a node the way leads to a dangling reference, and follows no reference twice. -/
structure Way.Leads (root node : Value) (way : Way) : Prop where
  walk : LazyWalk root node way.path way.trail way.bad
  nodup : way.trail.Nodup
  held : heldRef? way.bad = some way.ref
  unresolved : resolve root way.ref = .error way.reason

/-- What is reported for a way that starts at a place. -/
def Way.failure (place : Location) (way : Way) : Failure :=
  ⟨way.ref.shown, Location.text (way.path.reverse ++ place), way.reason.message⟩

/-- The way that starts one step earlier. -/
def Way.behind (edge : Step) (way : Way) : Way := { way with path := edge :: way.path }

/-- The way that follows one more reference first. -/
def Way.through (s : String) (way : Way) : Way := { way with trail := s :: way.trail }

@[simp] theorem Way.failure_behind (edge : Step) (way : Way) :
    (way.behind edge).failure place = way.failure (edge :: place) := by
  simp [failure, behind]

@[simp] theorem Way.failure_through (s : String) (way : Way) :
    (way.through s).failure place = way.failure place := rfl

namespace Way.Leads

variable {way : Way}

theorem behind {part : Value} {edge : Step} (hplain : heldRef? node = none)
    (hpart : Part node edge part) (hleads : way.Leads root part) :
    (way.behind edge).Leads root node :=
  ⟨.step hplain hpart hleads.walk, hleads.nodup, hleads.held, hleads.unresolved⟩

theorem through {s : String} {target : Value} (hheld : heldRef? node = some (.str s))
    (hresolve : resolve root (.str s) = .ok target) (hfresh : s ∉ way.trail)
    (hleads : way.Leads root target) : (way.through s).Leads root node :=
  ⟨.follow hheld hresolve hleads.walk, List.nodup_cons.mpr ⟨hfresh, hleads.nodup⟩, hleads.held,
    hleads.unresolved⟩

/-- From a plain node a way goes on from one of its parts. -/
theorem of_plain (hleads : way.Leads root node) (hplain : heldRef? node = none) :
    ∃ edge part rest, Part node edge part ∧ Way.Leads root part rest ∧ rest.behind edge = way := by
  obtain ⟨path, trail, bad, ref, reason⟩ := way
  obtain ⟨hwalk, hnodup, hheld, hunresolved⟩ := hleads
  cases hwalk with
  | here => simp [hplain] at hheld
  | follow hother => simp [hplain] at hother
  | step _ hpart hrest => exact ⟨_, _, ⟨_, trail, bad, ref, reason⟩, hpart,
      ⟨hrest, hnodup, hheld, hunresolved⟩, rfl⟩

/-- From a node with a reference that leads somewhere, a way goes on from the target. -/
theorem of_resolved {s : String} {target : Value} (hleads : way.Leads root node)
    (hheld : heldRef? node = some (.str s)) (hresolve : resolve root (.str s) = .ok target) :
    ∃ rest, Way.Leads root target rest ∧ s ∉ rest.trail ∧ rest.through s = way := by
  obtain ⟨path, trail, bad, ref, reason⟩ := way
  obtain ⟨hwalk, hnodup, hbad, hunresolved⟩ := hleads
  cases hwalk with
  | here =>
      obtain rfl := Option.some.inj (hheld.symm.trans hbad)
      simp [hresolve] at hunresolved
  | step hplain => simp [hheld] at hplain
  | follow hother hok hrest =>
      obtain rfl := Value.str.inj (Option.some.inj (hheld.symm.trans hother))
      obtain rfl := Except.ok.inj (hresolve.symm.trans hok)
      obtain ⟨hfresh, hnodup⟩ := List.nodup_cons.mp hnodup
      exact ⟨⟨path, _, bad, ref, reason⟩, ⟨hrest, hnodup, hbad, hunresolved⟩, hfresh, rfl⟩

/-- From a node with a dangling reference there is just the way that ends at once. -/
theorem of_dangling {ref : Value} {e : Dangling} (hleads : way.Leads root node)
    (hheld : heldRef? node = some ref) (hresolve : resolve root ref = .error e) :
    way = ⟨[], [], node, ref, e⟩ := by
  obtain ⟨path, trail, bad, other, reason⟩ := way
  obtain ⟨hwalk, -, hbad, hunresolved⟩ := hleads
  cases hwalk with
  | here =>
      obtain rfl := Option.some.inj (hheld.symm.trans hbad)
      obtain rfl := Except.error.inj (hresolve.symm.trans hunresolved)
      rfl
  | step hplain => simp [hheld] at hplain
  | follow hother hok =>
      obtain rfl := Option.some.inj (hheld.symm.trans hother)
      simp [hresolve] at hok

end Way.Leads

/-! ## Failures are reported for ways -/

/-- Every reference that is being expanded leads somewhere. -/
def AllResolve (root : Value) (active : List String) : Prop :=
  ∀ s ∈ active, ∃ target, resolve root (.str s) = .ok target

theorem AllResolve.cons {s : String} {target : Value} (hactive : AllResolve root active)
    (hresolve : resolve root (.str s) = .ok target) : AllResolve root (s :: active) :=
  List.forall_mem_cons.mpr ⟨⟨target, hresolve⟩, hactive⟩

/-- The failures of a visit are those for the ways from its node that follow no reference which is
being expanded. -/
theorem mem_failures_expandUnder_iff_way {failure : Failure} (hinside : Inside root node)
    (hactive : AllResolve root active) :
    failure ∈ (expandUnder root active place node).failures ↔
      ∃ way : Way, way.Leads root node ∧ (∀ s ∈ way.trail, s ∉ active) ∧
        way.failure place = failure := by
  induction active, node, hinside using visit_induction generalizing place with
  | plain active node _ hplain ih =>
      rw [mem_failures_expandUnder_iff hplain]
      constructor
      · intro hfailure
        obtain ⟨edge, part, hpart, hfailure⟩ := hfailure
        obtain ⟨way, hleads, hfresh, rfl⟩ := (ih edge part hpart hactive).mp hfailure
        exact ⟨way.behind edge, hleads.behind hplain hpart, hfresh, way.failure_behind edge⟩
      · intro hway
        obtain ⟨way, hleads, hfresh, rfl⟩ := hway
        obtain ⟨edge, part, rest, hpart, hrest, rfl⟩ := hleads.of_plain hplain
        exact ⟨edge, part, hpart,
          (ih edge part hpart hactive).mpr ⟨rest, hrest, hfresh, (rest.failure_behind edge).symm⟩⟩
  | kept active node _ s hheld hs =>
      rw [expandUnder_of_active hheld hs]
      constructor
      · rintro ⟨⟩
      · -- Every way from here follows the reference that is being expanded.
        intro hway
        obtain ⟨way, hleads, hfresh, -⟩ := hway
        obtain ⟨target, hresolve⟩ := hactive s hs
        obtain ⟨rest, -, -, rfl⟩ := hleads.of_resolved hheld hresolve
        exact absurd hs (hfresh s List.mem_cons_self)
  | dangling active node hinside ref e hheld hfresh hresolve =>
      rw [expandUnder_of_dangling hinside hheld hfresh hresolve, List.mem_singleton]
      constructor
      · rintro rfl
        exact ⟨⟨[], [], node, ref, e⟩, ⟨.here node, List.nodup_nil, hheld, hresolve⟩,
          List.forall_mem_nil _, rfl⟩
      · intro hway
        obtain ⟨way, hleads, -, rfl⟩ := hway
        rw [hleads.of_dangling hheld hresolve]
        rfl
  | resolved active node hinside s target hheld hs hresolve ih =>
      rw [expandUnder_of_resolved hinside hheld hs hresolve, ih (hactive.cons hresolve)]
      constructor
      · intro hway
        obtain ⟨way, hleads, hfresh, rfl⟩ := hway
        have hnew : s ∉ way.trail := fun hmem => hfresh s hmem List.mem_cons_self
        refine ⟨way.through s, hleads.through hheld hresolve hnew, ?_, rfl⟩
        exact List.forall_mem_cons.mpr
          ⟨hs, fun other hother hmem => hfresh other hother (List.mem_cons_of_mem _ hmem)⟩
      · intro hway
        obtain ⟨way, hleads, hfresh, rfl⟩ := hway
        obtain ⟨rest, hrest, hnew, rfl⟩ := hleads.of_resolved hheld hresolve
        refine ⟨rest, hrest, fun other hother hmem => ?_, rfl⟩
        rcases List.mem_cons.mp hmem with rfl | hactive
        · exact hnew hother
        · exact hfresh other (List.mem_cons_of_mem _ hother) hactive

/-! ## No two failures have the same location -/

/-- Two ways from one node that are written alike are the same way. -/
theorem Way.Leads.unique {left right : Way} (hroot : IsAddressable root) (hnode : IsAddressable node)
    (hleft : left.Leads root node) (hright : right.Leads root node)
    (htext : pathText left.path = pathText right.path) : left = right := by
  obtain ⟨path, trail, bad, ref, reason⟩ := left
  obtain ⟨hwalk, hnodup, hheld, hunresolved⟩ := hleft
  dsimp only at hwalk hnodup hheld hunresolved htext
  induction hwalk generalizing right with
  | here node => exact (hright.of_dangling hheld hunresolved).symm
  | follow hstart hresolve hrest ih =>
      obtain ⟨rest, hleads, -, rfl⟩ := hright.of_resolved hstart hresolve
      rw [← ih (hroot.target hresolve) hleads htext (List.nodup_cons.mp hnodup).2 hheld]
      rfl
  | step hplain hpart _ ih =>
      obtain ⟨edge, part, rest, hother, hleads, rfl⟩ := hright.of_plain hplain
      obtain ⟨hfirst, hlater⟩ := pathText_cons_inj htext
      obtain ⟨rfl, rfl⟩ := hnode.part_unique hpart hother hfirst
      rw [← ih (hnode.part hpart) hleads hlater hnodup hheld]
      rfl

/-- The locations of the failures of an expansion. -/
def Expansion.locations {α : Type} (expansion : Expansion α) : List String :=
  expansion.failures.map (·.location)

/-- Where the parts of a plain node are walked with different locations each, and no location occurs
in two parts, the node is walked with different locations. -/
theorem nodup_locations_walk {act : Location → Value → Value → Expansion Value}
    (hnode : IsAddressable node) (hplain : heldRef? node = none)
    (hparts : ∀ edge part, Part node edge part → (walk act (edge :: place) part).locations.Nodup)
    (happart : ∀ edge part other beside, Part node edge part → Part node other beside →
      edge ≠ other → List.Disjoint (walk act (edge :: place) part).locations
        (walk act (other :: place) beside).locations) :
    (walk act place node).locations.Nodup := by
  cases node with
  | list items =>
      have hitem : ∀ i (hi : i < items.length), Part (.list items) (.index i) items[i] :=
        fun i hi => .item (List.getElem?_eq_getElem hi)
      rw [Expansion.locations, walk_list, List.map_flatMap, List.nodup_flatMap]
      constructor
      · intro walked hwalked
        obtain ⟨i, hi, rfl⟩ := List.mem_mapIdx.mp hwalked
        exact hparts _ _ (hitem i hi)
      · rw [List.pairwise_iff_getElem]
        intro i j hi hj hlt
        rw [List.length_mapIdx] at hi hj
        rw [Function.onFun, List.getElem_mapIdx, List.getElem_mapIdx]
        apply happart _ _ _ _ (hitem i hi) (hitem j hj)
        intro heq
        cases heq
        omega
  | map entries =>
      have hkeys := hnode.nodup_keys
      rw [Entries.keys, List.Nodup, List.pairwise_map] at hkeys
      rw [Expansion.locations, walk_map hplain, List.map_flatMap, List.nodup_flatMap,
        List.forall_mem_map, List.pairwise_map]
      constructor
      · exact fun entry hentry => hparts _ _ (.entry hentry)
      · apply hkeys.imp_of_mem
        intro entry other hentry hother hne
        apply happart _ _ _ _ (.entry hentry) (.entry hother)
        exact fun heq => hne (Step.key.inj heq)
  | _ =>
      rw [walk_scalar rfl]
      exact List.nodup_nil

/-- The location of a failure continues the place that the visit stands at. -/
theorem exists_location_of_mem_locations {location : String} (hinside : Inside root node)
    (hactive : AllResolve root active)
    (hlocation : location ∈ (expandUnder root active place node).locations) :
    ∃ path : List Step, location = Location.text (path.reverse ++ place) := by
  obtain ⟨failure, hfailure, rfl⟩ := List.mem_map.mp hlocation
  obtain ⟨way, -, -, rfl⟩ := (mem_failures_expandUnder_iff_way hinside hactive).mp hfailure
  exact ⟨way.path, rfl⟩

theorem nodup_locations_expandUnder (hroot : IsAddressable root) (hnode : IsAddressable node)
    (hinside : Inside root node) (hactive : AllResolve root active) :
    (expandUnder root active place node).locations.Nodup := by
  induction active, node, hinside using visit_induction generalizing place with
  | plain active node hinside hplain ih =>
      rw [expandUnder_eq_walk]
      apply nodup_locations_walk hnode hplain
      · intro edge part hpart
        rw [← expandUnder_eq_walk]
        exact ih edge part hpart (hnode.part hpart) hactive
      · intro edge part other beside hpart hbeside hne location hleft hright
        rw [← expandUnder_eq_walk] at hleft hright
        obtain ⟨path, rfl⟩ :=
          exists_location_of_mem_locations (hinside.part hpart) hactive hleft
        obtain ⟨others, htext⟩ :=
          exists_location_of_mem_locations (hinside.part hbeside) hactive hright
        have hpaths : pathText (edge :: path) = pathText (other :: others) := by
          simpa using Location.text_append_inj (path.reverse ++ [edge]) (others.reverse ++ [other])
            place (by simpa using htext)
        exact hne (hnode.part_unique hpart hbeside (pathText_cons_inj hpaths).1).1
  | kept active node _ s hheld hs =>
      rw [expandUnder_of_active hheld hs]
      exact List.nodup_nil
  | dangling active node hinside ref e hheld hfresh hresolve =>
      rw [expandUnder_of_dangling hinside hheld hfresh hresolve]
      exact List.nodup_singleton _
  | resolved active node hinside s target hheld hs hresolve ih =>
      rw [expandUnder_of_resolved hinside hheld hs hresolve]
      exact ih (hroot.target hresolve) (hactive.cons hresolve)

/-! ## The ends of the ways -/

theorem LazyWalk.append {before after : List Step} {seen later : List String} {middle last : Value}
    (hbefore : LazyWalk root node before seen middle) (hafter : LazyWalk root middle after later last) :
    LazyWalk root node (before ++ after) (seen ++ later) last := by
  induction hbefore with
  | here => exact hafter
  | follow hheld hresolve _ ih => exact .follow hheld hresolve (ih hafter)
  | step hplain hpart _ ih => exact .step hplain hpart (ih hafter)

/-- Every visit is the end of a walk whose trail is the references that are being expanded. -/
theorem Visited.exists_lazyWalk {visit : Visit} (hvisited : Visited root visit) :
    ∃ path, LazyWalk root root path visit.active.reverse visit.node := by
  induction hvisited with
  | refl => exact ⟨[], .here root⟩
  | tail _ hcall ih =>
      obtain ⟨path, hwalk⟩ := ih
      cases hcall with
      | part hplain hpart =>
          have hlonger := hwalk.append (.step hplain hpart (.here _))
          rw [List.append_nil] at hlonger
          exact ⟨_, hlonger⟩
      | target hheld _ hresolve =>
          have hlonger := hwalk.append (.follow hheld hresolve (.here _))
          rw [List.append_nil] at hlonger
          exact ⟨path, by simpa using hlonger⟩

theorem LazyWalk.reachable {path : List Step} {trail : List String} {last : Value}
    (hwalk : LazyWalk root node path trail last) (hnode : Reachable root node) :
    Reachable root last := by
  induction hwalk with
  | here => exact hnode
  | follow hheld hresolve _ ih => exact ih (hnode.target hheld hresolve)
  | step hplain hpart _ ih => exact ih (hnode.part hplain hpart)

/-- The ways end at the dangling references that can be reached. -/
theorem isDangling_iff_exists_way {bad ref : Value} :
    IsDangling root bad ref ↔ ∃ way : Way, way.Leads root root ∧ way.bad = bad ∧ way.ref = ref := by
  constructor
  · intro hdangling
    obtain ⟨active, hvisited⟩ := exists_visited_of_reachable hdangling.reachable
    obtain ⟨path, hwalk⟩ := hvisited.exists_lazyWalk
    obtain ⟨e, hresolve⟩ := hdangling.unresolved
    have hnodup : active.reverse.Nodup := List.nodup_reverse.mpr hvisited.sound.nodup
    exact ⟨⟨path, active.reverse, bad, ref, e⟩, ⟨hwalk, hnodup, hdangling.held, hresolve⟩, rfl, rfl⟩
  · intro hway
    obtain ⟨way, hleads, rfl, rfl⟩ := hway
    exact ⟨hleads.walk.reachable .root, hleads.held, way.reason, hleads.unresolved⟩

/-- Along a way that follows no reference the parts of the description lead to its end. -/
theorem LazyWalk.at_of_nil {path : List Step} {last : Value}
    (hwalk : LazyWalk root node path [] last) : At node path last := by
  generalize htrail : ([] : List String) = trail at hwalk
  induction hwalk with
  | here => exact .here _
  | follow => cases htrail
  | step _ hpart _ ih => exact .step hpart (ih htrail)

end ApiContract.Reference

namespace ApiContract.Description

open Reference

variable {root : Value} {failures : List Failure}

/-- Where `inline` refuses a description whose keys are texts, there is one failure for each way to
a dangling reference, and the dangling references that can be reached are where the ways end.
Different ways have different locations, and no location is reported twice.  The location of a way
that follows no reference is a pointer to the dangling reference. -/
theorem inline_reports_ways (hroot : IsAddressable root)
    (hfails : (inline root).outcome = .error (.references failures)) :
    (∀ bad ref, IsDangling root bad ref ↔
      ∃ way : Way, way.Leads root root ∧ way.bad = bad ∧ way.ref = ref) ∧
    (∀ failure, failure ∈ failures ↔ ∃ way : Way, way.Leads root root ∧ way.failure [] = failure) ∧
    (∀ left right : Way, left.Leads root root → right.Leads root root →
      (left.failure []).location = (right.failure []).location → left = right) ∧
    (failures.map (·.location)).Nodup ∧
    ∀ way : Way, way.Leads root root → way.trail = [] → way.path ≠ [] →
      (∀ edge ∈ way.path, edge.IsReadable) →
        resolve root (.str (way.failure []).location) = .ok way.bad := by
  obtain ⟨rfl, -⟩ := outcome_inline_eq_error_iff.mp hfails
  rw [expand_eq_expandUnder]
  have hactive : AllResolve root [] := List.forall_mem_nil _
  refine ⟨fun _ _ => isDangling_iff_exists_way, fun failure => ?_, ?_, ?_, ?_⟩
  · rw [mem_failures_expandUnder_iff_way (.refl root) hactive]
    simp
  · intro left right hleft hright htext
    have hpaths : pathText left.path = pathText right.path := by
      simpa using Location.text_append_inj _ _ [] htext
    exact hleft.unique hroot hroot hright hpaths
  · exact nodup_locations_expandUnder hroot hroot (.refl root) hactive
  · intro way hleads hstraight hne hreadable
    have hwalk := hleads.walk
    rw [hstraight] at hwalk
    rw [Way.failure, List.append_nil]
    exact hroot.resolve_text hwalk.at_of_nil hreadable hne

/-- A dangling reference inside a node that is itself referred to. -/
def crossing : Value :=
  .map [
    (.str "a", .map [(.str "$ref", .str "#/b")]),
    (.str "b", .map [(.str "c", .map [(.str "$ref", .str "#/missing")])])]

/-- The failures of `crossing`: one for each of the two ways to its one dangling reference. -/
def crossingFailures : List Failure := [
  ⟨"#/missing", "#/a/c", "key 'missing' not found"⟩,
  ⟨"#/missing", "#/b/c", "key 'missing' not found"⟩]

theorem outcome_inline_crossing :
    (inline crossing).outcome = .error (.references crossingFailures) := by
  have hfailures : (expand crossing).failures = crossingFailures := by decide +kernel
  exact outcome_inline_eq_error_iff.mpr ⟨hfailures, by simp [crossingFailures]⟩

theorem crossing_reports_ways :
    IsAddressable crossing ∧
      (inline crossing).outcome = .error (.references crossingFailures) ∧
      ∀ failure, failure ∈ crossingFailures ↔
        ∃ way : Way, way.Leads crossing crossing ∧ way.failure [] = failure := by
  have hroot : IsAddressable crossing := ⟨by decide, by cbv⟩
  have hfails := outcome_inline_crossing
  exact ⟨hroot, hfails, (inline_reports_ways hroot hfails).2.1⟩

/-- The location of a failure is a pointer to a node that holds the reference. -/
def IsLocated (root : Value) (failure : Failure) : Prop :=
  ∃ bad ref, resolve root (.str failure.location) = .ok bad ∧ heldRef? bad = some ref ∧
    ref.shown = failure.ref

/-- The only dangling reference of `crossing` is reported twice, once at a place that `crossing` does
not have. -/
theorem crossing_isMislocated :
    ∃ failures, (inline crossing).outcome = .error (.references failures) ∧
      failures.length = 2 ∧ (references crossing).count "#/missing" = 1 ∧
      ¬ ∀ failure ∈ failures, IsLocated crossing failure := by
  refine ⟨crossingFailures, outcome_inline_crossing, rfl, by decide, fun hall => ?_⟩
  obtain ⟨bad, ref, hresolve, -, -⟩ := hall _ List.mem_cons_self
  have hnowhere : resolve crossing (.str "#/a/c") = .error (.missingKey ['c']) := by cbv
  simp [hnowhere] at hresolve

end ApiContract.Description
