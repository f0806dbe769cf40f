import ApiContract.Description.Inline
import ApiContract.Proofs.Reference.Failures
import ApiContract.Proofs.Reference.LeftOver
import ApiContract.Proofs.Reference.PlainPointer

/-!
# Descriptions without circular references

The expansion of a node depends on the references that are being expanded around it, but only as far
as a walk from the node comes back to them.  Where no reference leads back to itself none does, and
a node has one expansion, wherever it is made: `unfolded`.  Expanding is then what one expects of
it.  The parts of an expanded node are the expanded parts, a reference is as good as its target, and
nothing is left over.

The main statement: where `inline` succeeds on such a description, no reference is left at a place
that lists and mappings lead to, the result is its own expansion, and a reference has become what
stands at the place that it names.  Pairs of values are no such places.  They are kept as they are
in the description, with the references in them.
-/

namespace ApiContract.Reference

variable {root node last found : Value} {active other : List String}
  {place otherPlace : Location} {path : List Step} {trail : List String} {s : String}

/-! ## What lies ahead of a node -/

/-- A walk from a node comes to one that holds a reference. -/
def Ahead (root node : Value) (s : String) : Prop :=
  ∃ path trail held, LazyWalk root node path trail held ∧ heldRef? held = some (.str s)

/-- No reference that a walk through a description comes to is circular. -/
def IsAcyclic (root : Value) : Prop :=
  ∀ s, Ahead root root s → ¬ IsCircular root s

/-- Every reference ahead of a node leads somewhere, and to no node that it lies ahead of. -/
def Unfoldable (root node : Value) : Prop :=
  ∀ path trail held ref, LazyWalk root node path trail held → heldRef? held = some ref →
    ∃ s target, ref = .str s ∧ resolve root ref = .ok target ∧ ¬ Ahead root target s

theorem Ahead.of_held (hheld : heldRef? node = some (.str s)) : Ahead root node s :=
  ⟨[], [], node, .here node, hheld⟩

theorem Ahead.of_part {edge : Step} {part : Value} (hplain : heldRef? node = none)
    (hpart : Part node edge part) (hahead : Ahead root part s) : Ahead root node s := by
  obtain ⟨path, trail, held, hwalk, hheld⟩ := hahead
  exact ⟨edge :: path, trail, held, .step hplain hpart hwalk, hheld⟩

theorem Ahead.of_target {target : Value} {t : String} (hheld : heldRef? node = some (.str t))
    (hresolve : resolve root (.str t) = .ok target) (hahead : Ahead root target s) :
    Ahead root node s := by
  obtain ⟨path, trail, held, hwalk, hs⟩ := hahead
  exact ⟨path, t :: trail, held, .follow hheld hresolve hwalk, hs⟩

theorem Unfoldable.part {edge : Step} {part : Value} (hunfoldable : Unfoldable root node)
    (hplain : heldRef? node = none) (hpart : Part node edge part) : Unfoldable root part :=
  fun path trail held ref hwalk =>
    hunfoldable (edge :: path) trail held ref (.step hplain hpart hwalk)

theorem Unfoldable.target {target : Value} (hunfoldable : Unfoldable root node)
    (hheld : heldRef? node = some (.str s)) (hresolve : resolve root (.str s) = .ok target) :
    Unfoldable root target :=
  fun path trail held ref hwalk =>
    hunfoldable path (s :: trail) held ref (.follow hheld hresolve hwalk)

theorem Unfoldable.not_ahead {target : Value} (hunfoldable : Unfoldable root node)
    (hheld : heldRef? node = some (.str s)) (hresolve : resolve root (.str s) = .ok target) :
    ¬ Ahead root target s := by
  obtain ⟨_, _, ⟨⟩, hok, hahead⟩ := hunfoldable [] [] node _ (.here node) hheld
  rwa [Except.ok.inj (hresolve.symm.trans hok)]

/-- Entering a reference keeps the active references behind. -/
theorem Unfoldable.not_ahead_of_target {target : Value} (hunfoldable : Unfoldable root node)
    (hheld : heldRef? node = some (.str s)) (hresolve : resolve root (.str s) = .ok target)
    (hactive : ∀ t ∈ active, ¬ Ahead root node t) : ∀ t ∈ s :: active, ¬ Ahead root target t := by
  intro t ht
  rcases List.mem_cons.mp ht with rfl | hearlier
  · exact hunfoldable.not_ahead hheld hresolve
  · exact fun hahead => hactive t hearlier (hahead.of_target hheld hresolve)

/-- Induction along the unfolding of a node: from a plain node to its parts, and from a reference to
its target. -/
theorem unfolding_induction
    {motive : ∀ node, Inside root node → Unfoldable root node → Prop}
    (plain : ∀ node (hinside : Inside root node) (hunfoldable : Unfoldable root node)
      (hplain : heldRef? node = none),
      (∀ edge part (hpart : Part node edge part),
        motive part (hinside.part hpart) (hunfoldable.part hplain hpart)) →
      motive node hinside hunfoldable)
    (held : ∀ node (hinside : Inside root node) (hunfoldable : Unfoldable root node) s target
      (hheld : heldRef? node = some (.str s)) (hresolve : resolve root (.str s) = .ok target),
      motive target (.target hresolve) (hunfoldable.target hheld hresolve) →
      motive node hinside hunfoldable)
    (node : Value) (hinside : Inside root node) (hunfoldable : Unfoldable root node) :
    motive node hinside hunfoldable := by
  -- The induction is that of an expansion.  Since no active reference lies ahead, none is kept.
  have hvisit : ∀ active : List String, (∀ t ∈ active, ¬ Ahead root node t) →
      motive node hinside hunfoldable := by
    intro active
    induction active, node, hinside using visit_induction with
    | plain active node hinside hplain ih =>
        intro hactive
        refine plain node hinside hunfoldable hplain fun edge part hpart => ?_
        exact ih edge part hpart (hunfoldable.part hplain hpart)
          fun t ht hahead => hactive t ht (hahead.of_part hplain hpart)
    | kept active node _ s hheld hs =>
        intro hactive
        exact absurd (.of_held hheld) (hactive s hs)
    | dangling active node _ ref e hheld _ hresolve =>
        obtain ⟨_, _, _, hok, _⟩ := hunfoldable [] [] node ref (.here node) hheld
        simp [hresolve] at hok
    | resolved active node hinside s target hheld _ hresolve ih =>
        intro hactive
        refine held node hinside hunfoldable s target hheld hresolve ?_
        exact ih (hunfoldable.target hheld hresolve)
          (hunfoldable.not_ahead_of_target hheld hresolve hactive)
  exact hvisit [] (by simp)

/-! ## The expansion of a node on its own -/

/-- The expansion of a node, made as if nothing else were being expanded. -/
def unfolded (root node : Value) : Value :=
  (expandUnder root [] [] node).node

/-- References that do not lie ahead of a node make no difference to its expansion. -/
theorem node_expandUnder_congr (hinside : Inside root node) (hunfoldable : Unfoldable root node)
    (hactive : ∀ t ∈ active, ¬ Ahead root node t) (hother : ∀ t ∈ other, ¬ Ahead root node t) :
    (expandUnder root active place node).node = (expandUnder root other otherPlace node).node := by
  induction active, node, hinside using visit_induction generalizing other place otherPlace with
  | plain active node _ hplain ih =>
      rw [expandUnder_eq_walk, expandUnder_eq_walk]
      refine node_walk_congr hplain fun edge part hpart => ?_
      rw [← expandUnder_eq_walk, ← expandUnder_eq_walk]
      exact ih edge part hpart (hunfoldable.part hplain hpart)
        (fun t ht hahead => hactive t ht (hahead.of_part hplain hpart))
        fun t ht hahead => hother t ht (hahead.of_part hplain hpart)
  | kept active node _ s hheld hs => exact absurd (.of_held hheld) (hactive s hs)
  | dangling active node _ ref e hheld _ hresolve =>
      obtain ⟨_, _, _, hok, _⟩ := hunfoldable [] [] node ref (.here node) hheld
      simp [hresolve] at hok
  | resolved active node hinside s target hheld hs hresolve ih =>
      -- The other expansion enters the reference too.
      have hs' : s ∉ other := fun hmem => hother s hmem (.of_held hheld)
      rw [expandUnder_of_resolved hinside hheld hs hresolve,
        expandUnder_of_resolved hinside hheld hs' hresolve]
      exact ih (hunfoldable.target hheld hresolve)
        (hunfoldable.not_ahead_of_target hheld hresolve hactive)
        (hunfoldable.not_ahead_of_target hheld hresolve hother)

theorem node_expandUnder_eq_unfolded (hinside : Inside root node)
    (hunfoldable : Unfoldable root node) (hactive : ∀ t ∈ active, ¬ Ahead root node t) :
    (expandUnder root active place node).node = unfolded root node :=
  node_expandUnder_congr hinside hunfoldable hactive (by simp)

theorem shape_unfolded (hplain : heldRef? node = none) :
    (unfolded root node).shape = node.shape :=
  shape_expandUnder hplain

theorem unfolded_pair (root first second : Value) :
    unfolded root (.pair first second) = .pair first second := by
  rw [unfolded, expandUnder_eq_walk, walk_scalar rfl]

theorem part_unfolded_iff (hinside : Inside root node) (hunfoldable : Unfoldable root node)
    (hplain : heldRef? node = none) {edge : Step} {after : Value} :
    Part (unfolded root node) edge after ↔
      ∃ before, Part node edge before ∧ after = unfolded root before := by
  rw [unfolded, part_expandUnder_iff hplain]
  refine exists_congr fun before => and_congr_right fun hpart => ?_
  rw [node_expandUnder_eq_unfolded (hinside.part hpart) (hunfoldable.part hplain hpart) (by simp)]

/-- A reference is as good as its target. -/
theorem unfolded_of_heldRef? {target : Value} (hinside : Inside root node)
    (hunfoldable : Unfoldable root node) (hheld : heldRef? node = some (.str s))
    (hresolve : resolve root (.str s) = .ok target) :
    unfolded root node = unfolded root target := by
  rw [unfolded, expandUnder_of_resolved hinside hheld (by simp) hresolve]
  apply node_expandUnder_eq_unfolded (.target hresolve) (hunfoldable.target hheld hresolve)
  exact hunfoldable.not_ahead_of_target hheld hresolve (by simp)

/-- What stands in an expanded node is the expansion of what a walk comes to. -/
theorem at_unfolded_iff (hinside : Inside root node) (hunfoldable : Unfoldable root node) :
    At (unfolded root node) path found ↔
      ∃ trail last, LazyWalk root node path trail last ∧ heldRef? last = none ∧
        found = unfolded root last := by
  induction node, hinside, hunfoldable using unfolding_induction generalizing path with
  | plain node hinside hunfoldable hplain ih =>
      constructor
      · intro hat
        cases hat with
        | here => exact ⟨[], node, .here node, hplain, rfl⟩
        | step hpart hrest =>
            obtain ⟨before, hbefore, rfl⟩ :=
              (part_unfolded_iff hinside hunfoldable hplain).mp hpart
            obtain ⟨trail, last, hwalk, hend⟩ := (ih _ before hbefore).mp hrest
            exact ⟨trail, last, .step hplain hbefore hwalk, hend⟩
      · rintro ⟨trail, last, hwalk, hlast, rfl⟩
        cases hwalk with
        | here => exact .here _
        | follow hheld => simp [hplain] at hheld
        | step _ hpart hrest =>
            refine .step ((part_unfolded_iff hinside hunfoldable hplain).mpr ⟨_, hpart, rfl⟩) ?_
            exact (ih _ _ hpart).mpr ⟨_, _, hrest, hlast, rfl⟩
  | held node hinside hunfoldable s target hheld hresolve ih =>
      rw [unfolded_of_heldRef? hinside hunfoldable hheld hresolve, ih]
      constructor
      · rintro ⟨trail, last, hwalk, hend⟩
        exact ⟨s :: trail, last, .follow hheld hresolve hwalk, hend⟩
      · rintro ⟨trail, last, hwalk, hlast, rfl⟩
        cases hwalk with
        | here => simp [hheld] at hlast
        | step hplain => simp [hheld] at hplain
        | follow hheld' hresolve' hrest =>
            obtain rfl := Value.str.inj (Option.some.inj (hheld.symm.trans hheld'))
            obtain rfl := Except.ok.inj (hresolve.symm.trans hresolve')
            exact ⟨_, last, hrest, hlast, rfl⟩

theorem heldRef?_of_at_unfolded (hinside : Inside root node) (hunfoldable : Unfoldable root node)
    (hat : At (unfolded root node) path found) : heldRef? found = none := by
  obtain ⟨trail, last, -, hlast, rfl⟩ := (at_unfolded_iff hinside hunfoldable).mp hat
  exact heldRef?_eq_none_of_shape (shape_unfolded hlast).symm hlast

/-- A walk ends at what stands, expanded, at its path; the last node may hold a reference. -/
theorem LazyWalk.at_unfolded (hwalk : LazyWalk root node path trail last)
    (hinside : Inside root node) (hunfoldable : Unfoldable root node) :
    At (unfolded root node) path (unfolded root last) := by
  induction hwalk with
  | here node => exact .here _
  | follow hheld hresolve _ ih =>
      rw [unfolded_of_heldRef? hinside hunfoldable hheld hresolve]
      exact ih (.target hresolve) (hunfoldable.target hheld hresolve)
  | step hplain hpart _ ih =>
      refine .step ((part_unfolded_iff hinside hunfoldable hplain).mpr ⟨_, hpart, rfl⟩) ?_
      exact ih (hinside.part hpart) (hunfoldable.part hplain hpart)

/-! ## Walks, paths and reachable nodes -/

theorem LazyWalk.inside (hwalk : LazyWalk root node path trail last) (hinside : Inside root node) :
    Inside root last := by
  induction hwalk with
  | here => exact hinside
  | follow _ hresolve _ ih => exact ih (.target hresolve)
  | step _ hpart _ ih => exact ih (hinside.part hpart)

theorem LazyWalk.unfoldable (hwalk : LazyWalk root node path trail last)
    (hunfoldable : Unfoldable root node) : Unfoldable root last := by
  induction hwalk with
  | here => exact hunfoldable
  | follow hheld hresolve _ ih => exact ih (hunfoldable.target hheld hresolve)
  | step hplain hpart _ ih => exact ih (hunfoldable.part hplain hpart)

theorem LazyWalk.trans {later : List Step} {laterTrail : List String} {final : Value}
    (hwalk : LazyWalk root node path trail last)
    (hlater : LazyWalk root last later laterTrail final) :
    LazyWalk root node (path ++ later) (trail ++ laterTrail) final := by
  induction hwalk with
  | here => exact hlater
  | follow hheld hresolve _ ih => exact .follow hheld hresolve (ih hlater)
  | step hplain hpart _ ih => exact .step hplain hpart (ih hlater)

/-- A path that goes through no reference is walked without following one. -/
theorem LazyWalk.of_at (hat : At node path found) (hclear : IsClear node path) :
    LazyWalk root node path [] found := by
  induction hat with
  | here node => exact .here node
  | step hpart _ ih =>
      have hplain := hclear [] _ List.nil_prefix (by simp) (.here _)
      exact .step hplain hpart (ih (hclear.tail hpart))

theorem Reachable.of_lazyWalk (hreachable : Reachable root node)
    (hwalk : LazyWalk root node path trail last) : Reachable root last := by
  induction hwalk with
  | here => exact hreachable
  | follow hheld hresolve _ ih => exact ih (hreachable.target hheld hresolve)
  | step hplain hpart _ ih => exact ih (hreachable.part hplain hpart)

theorem exists_lazyWalk_of_reachable (hreachable : Reachable root node) :
    ∃ path trail, LazyWalk root root path trail node := by
  induction hreachable with
  | root => exact ⟨[], [], .here root⟩
  | part _ hplain hpart ih =>
      obtain ⟨path, trail, hwalk⟩ := ih
      exact ⟨_, _, hwalk.trans (.step hplain hpart (.here _))⟩
  | target _ hheld hresolve ih =>
      obtain ⟨path, trail, hwalk⟩ := ih
      obtain ⟨s, rfl⟩ := exists_str_of_resolve hresolve
      exact ⟨_, _, hwalk.trans (.follow hheld hresolve (.here _))⟩

/-- A description that is expanded without failures, and in which no reference leads back to itself,
can be unfolded. -/
theorem IsAcyclic.unfoldable (hacyclic : IsAcyclic root) (hsucceeds : (expand root).failures = []) :
    Unfoldable root root := by
  intro path trail held ref hwalk hheld
  cases hresolve : resolve root ref with
  | error e =>
      have hdangling : IsDangling root held ref :=
        ⟨Reachable.root.of_lazyWalk hwalk, hheld, e, hresolve⟩
      obtain ⟨failure, hfailure, -⟩ :=
        exists_mem_failures_expand_iff.mpr ⟨held, ref, hdangling, rfl⟩
      simp [hsucceeds] at hfailure
  | ok target =>
      obtain ⟨s, rfl⟩ := exists_str_of_resolve hresolve
      refine ⟨s, target, rfl, rfl, fun hahead => ?_⟩
      obtain ⟨rest, later, again, hreturn, hagain⟩ := hahead
      exact hacyclic s ⟨path, trail, held, hwalk, hheld⟩
        ⟨internal_of_resolve hresolve, target, rest, later, again, hresolve, hreturn, hagain⟩

/-- References can be told to be acyclic by a rank that falls from each to those in its target. -/
theorem IsAcyclic.of_rank (rank : String → Nat)
    (hrank : ∀ s ∈ references root, ∀ target, resolve root (.str s) = .ok target →
      ∀ t ∈ references target, rank t < rank s) : IsAcyclic root := by
  -- All references that a walk meets rank below the bound for the node that it starts from.
  have hfalls : ∀ node path trail held s bound, LazyWalk root node path trail held →
      Inside root node → (∀ t ∈ references node, rank t < bound) →
      heldRef? held = some (.str s) → rank s < bound := by
    intro node path trail held s bound hwalk hinside hbound hheld
    induction hwalk generalizing bound with
    | here => exact hbound s (mem_references_of_heldRef? hheld)
    | follow hfollowed hresolve _ ih =>
        have hmem := mem_references_of_heldRef? hfollowed
        have hlower := ih _ (.target hresolve) (hrank _ (hinside hmem) _ hresolve) hheld
        exact hlower.trans (hbound _ hmem)
    | step _ hpart _ ih =>
        exact ih bound (hinside.part hpart)
          (fun t ht => hbound t (references_subset_of_part hpart ht)) hheld
  rintro s ⟨path, trail, held, hwalk, hheld⟩ hcircular
  obtain ⟨target, rest, later, again, hresolve, hreturn, hagain⟩ := hcircular.returns
  have hmem : s ∈ references root :=
    hwalk.inside (.refl root) (mem_references_of_heldRef? hheld)
  have hlt := hfalls target rest later again s (rank s) hreturn (.target hresolve)
    (hrank s hmem target hresolve) hagain
  exact absurd hlt (Nat.lt_irrefl _)

/-! ## Values without references -/

/-- A node without references at any place is expanded to itself. -/
theorem walk_eq_self {act : Location → Value → Value → Expansion Value} {node : Value}
    {place : Location}
    (hfree : ∀ path found, At node path found → heldRef? found = none) :
    walk act place node = ⟨node, []⟩ := by
  refine walk_eq_self_of_parts (hfree [] node (.here node)) fun edge part hpart => ?_
  have hlt := sizeOf_lt_of_part hpart
  exact walk_eq_self fun path found hat => hfree (edge :: path) found (.step hpart hat)
termination_by sizeOf node

/-- A value somewhere in another.  Besides the places that lists and mappings lead to there are the
two halves of a pair; a key or a member of a set is never a mapping. -/
inductive Within : Value → Value → Prop
  | here (node : Value) : Within node node
  | part {node part inner : Value} {edge : Step} (hpart : Part node edge part)
      (hrest : Within part inner) : Within node inner
  | first {first second inner : Value} (hrest : Within first inner) :
      Within (.pair first second) inner
  | second {first second inner : Value} (hrest : Within second inner) :
      Within (.pair first second) inner

theorem Within.of_at {inner : Value} (hat : At node path found) (hrest : Within found inner) :
    Within node inner := by
  induction hat with
  | here => exact hrest
  | step hpart _ ih => exact .part hpart (ih hrest)

/-- What is in a value stands at a place of it, or in a pair that does. -/
theorem Within.exists_at {inner : Value} (hwithin : Within node inner) :
    (∃ path, At node path inner) ∨
      ∃ path first second, At node path (.pair first second) ∧
        Within (.pair first second) inner := by
  induction hwithin with
  | here node => exact Or.inl ⟨[], .here node⟩
  | part hpart _ ih =>
      rcases ih with ⟨path, hat⟩ | ⟨path, first, second, hat, hinner⟩
      · exact Or.inl ⟨_, .step hpart hat⟩
      · exact Or.inr ⟨_, first, second, .step hpart hat, hinner⟩
  | first hrest _ => exact Or.inr ⟨[], _, _, .here _, .first hrest⟩
  | second hrest _ => exact Or.inr ⟨[], _, _, .here _, .second hrest⟩

/-! ## The unfolding of a description -/

section Root

variable (hunfoldable : Unfoldable root root)

include hunfoldable

theorem heldRef?_of_at_root (hat : At (unfolded root root) path found) : heldRef? found = none :=
  heldRef?_of_at_unfolded (.refl root) hunfoldable hat

/-- The unfolding holds a reference exactly if a pair that can be reached does. -/
theorem within_unfolded_iff :
    (∀ held, Within (unfolded root root) held → heldRef? held = none) ↔
      ∀ first second, Reachable root (.pair first second) →
        ∀ held, Within (.pair first second) held → heldRef? held = none := by
  constructor
  · intro hwhole first second hreachable held hheld
    obtain ⟨path, trail, hwalk⟩ := exists_lazyWalk_of_reachable hreachable
    have hat := hwalk.at_unfolded (.refl root) hunfoldable
    rw [unfolded_pair] at hat
    exact hwhole held (.of_at hat hheld)
  · intro hpairs held hwithin
    rcases hwithin.exists_at with ⟨path, hat⟩ | ⟨path, first, second, hat, hinner⟩
    · exact heldRef?_of_at_root hunfoldable hat
    · obtain ⟨trail, last, hwalk, hlast, hpair⟩ :=
        (at_unfolded_iff (.refl root) hunfoldable).mp hat
      obtain rfl : last = .pair first second := by
        have hshape : (unfolded root last).shape = last.shape := shape_unfolded hlast
        rw [← hpair] at hshape
        cases last <;> simp_all [Value.shape]
      exact hpairs first second (Reachable.root.of_lazyWalk hwalk) held hinner

/-- At the place of a reference stands what stands at the place that the reference names. -/
theorem exists_at_unfolded_of_leads {held target : Value} {s : String} {segments : List (List Char)}
    (hat : At root path held) (hclear : IsClear root path) (hheld : heldRef? held = some (.str s))
    (hparse : parse? (.str s) = some segments) (hleads : LeadsPlainly root segments target) :
    ∃ found, At (unfolded root root) path found ∧
      resolve (unfolded root root) (.str s) = .ok found := by
  have hwalk : LazyWalk root root path [] held := .of_at hat hclear
  have hresolve : resolve root (.str s) = .ok target := by
    rw [resolve, hparse]
    exact hleads.follow
  obtain ⟨place, hfollow⟩ := follow_expandUnder root [] [] hleads
  have htarget : (expandUnder root [] place target).node = unfolded root target :=
    node_expandUnder_eq_unfolded (.target hresolve)
      ((hwalk.unfoldable hunfoldable).target hheld hresolve) (by simp)
  refine ⟨unfolded root held, hwalk.at_unfolded (.refl root) hunfoldable, ?_⟩
  rw [resolve, hparse, unfolded_of_heldRef? (hwalk.inside (.refl root))
    (hwalk.unfoldable hunfoldable) hheld hresolve, ← htarget]
  exact hfollow

theorem at_unfolded_unique {left right : Value} (hdistinct : HasDistinctKeys root)
    (hleft : At (unfolded root root) path left) (hright : At (unfolded root root) path right) :
    left = right := by
  obtain ⟨trail, last, hwalk, hlast, rfl⟩ := (at_unfolded_iff (.refl root) hunfoldable).mp hleft
  obtain ⟨trail', last', hwalk', hlast', rfl⟩ :=
    (at_unfolded_iff (.refl root) hunfoldable).mp hright
  rw [hwalk.unique hdistinct hdistinct hwalk' hlast hlast']

end Root

end ApiContract.Reference

namespace ApiContract.Description

open Reference

variable {root result : Value}

/-- A description with all references expanded, wherever lists and mappings lead. -/
structure IsFullyInlined (root result : Value) : Prop where
  free : ∀ path found, At result path found → heldRef? found = none
  /-- A reference is left in the result only inside a pair that can be reached. -/
  whole : (∀ held, Within result held → heldRef? held = none) ↔
    ∀ first second, Reachable root (.pair first second) →
      ∀ held, Within (.pair first second) held → heldRef? held = none
  stable : (inline result).outcome = .ok result
  /-- A reference has become what stands at the place that it names. -/
  uniform : ∀ path held s segments target, At root path held → IsClear root path →
    heldRef? held = some (.str s) → parse? (.str s) = some segments →
    LeadsPlainly root segments target →
      ∃ found, At result path found ∧ resolve result (.str s) = .ok found
  /-- No two values stand at one place of the result. -/
  unique : HasDistinctKeys root → ∀ path left right, At result path left →
    At result path right → left = right

/-- Where `inline` succeeds on a description whose references never lead back to themselves, its
result has every reference expanded, in the same way wherever it stands. -/
theorem inline_isFullyInlined (hsucceeds : (inline root).outcome = .ok result)
    (hacyclic : IsAcyclic root) : IsFullyInlined root result := by
  obtain ⟨hfailures, rfl⟩ := outcome_inline_eq_ok_iff.mp hsucceeds
  have hunfoldable := hacyclic.unfoldable hfailures
  have hresult : (expand root).node = unfolded root root := by
    rw [expand_eq_expandUnder, unfolded]
  rw [hresult]
  have hfree : ∀ path found, At (unfolded root root) path found → heldRef? found = none :=
    fun _ _ => heldRef?_of_at_root hunfoldable
  constructor
  · exact hfree
  · exact within_unfolded_iff hunfoldable
  · have hself : expand (unfolded root root) = ⟨unfolded root root, []⟩ := by
      rw [expand_eq_expandUnder, expandUnder_eq_walk]
      exact walk_eq_self hfree
    rw [outcome_inline_eq_ok_iff, hself]
    exact ⟨rfl, rfl⟩
  · exact fun _ _ _ _ _ => exists_at_unfolded_of_leads hunfoldable
  · exact fun hdistinct _ _ _ => at_unfolded_unique hunfoldable hdistinct

/-- A reference to a node that holds another one. -/
def tower : Value :=
  .map [
    (.str "start", .list [.map [(.str "$ref", .str "#/middle")]]),
    (.str "middle", .map [(.str "next", .map [(.str "$ref", .str "#/end")])]),
    (.str "end", .map [(.str "type", .str "string")])]

/-- The description `tower` with all references expanded. -/
def towerInlined : Value :=
  .map [
    (.str "start", .list [.map [(.str "next", .map [(.str "type", .str "string")])]]),
    (.str "middle", .map [(.str "next", .map [(.str "type", .str "string")])]),
    (.str "end", .map [(.str "type", .str "string")])]

theorem tower_isFullyInlined :
    (inline tower).outcome = .ok towerInlined ∧ IsAcyclic tower ∧
      IsFullyInlined tower towerInlined := by
  have hsucceeds : (inline tower).outcome = .ok towerInlined := by cbv
  have hacyclic : IsAcyclic tower := by
    apply IsAcyclic.of_rank fun s => if s = "#/middle" then 1 else 0
    intro s hs target hresolve t ht
    have hreferences : references tower = ["#/middle", "#/end"] := by cbv
    have hmiddle : resolve tower (.str "#/middle") =
        .ok (.map [(.str "next", .map [(.str "$ref", .str "#/end")])]) := by cbv
    have hend : resolve tower (.str "#/end") = .ok (.map [(.str "type", .str "string")]) := by cbv
    rw [hreferences] at hs
    rcases List.mem_pair.mp hs with rfl | rfl
    · obtain rfl := Except.ok.inj (hmiddle.symm.trans hresolve)
      obtain rfl : t = "#/end" := by simpa [references, entryReferences, refField] using ht
      decide
    · obtain rfl := Except.ok.inj (hend.symm.trans hresolve)
      simp [references, entryReferences, refField] at ht
  exact ⟨hsucceeds, hacyclic, inline_isFullyInlined hsucceeds hacyclic⟩

/-- A reference in a list of pairs. -/
def enclosure : Value :=
  .map [
    (.str "a", .list [.pair (.str "k") (.map [(.str "$ref", .str "#/b")])]),
    (.str "b", .int 1)]

theorem enclosure_keeps_reference :
    (inline enclosure).outcome = .ok enclosure ∧ IsAcyclic enclosure ∧
      ¬ ∀ held, Within enclosure held → heldRef? held = none := by
  refine ⟨by cbv, ?_, ?_⟩
  · have hnone : references enclosure = [] := by cbv
    exact IsAcyclic.of_rank (fun _ => 0) (by simp [hnone])
  · intro hwhole
    have hitem : Part (.list [.pair (.str "k") (.map [(.str "$ref", .str "#/b")])]) (.index 0)
        (.pair (.str "k") (.map [(.str "$ref", .str "#/b")])) := .item rfl
    have hwithin : Within enclosure (.map [(.str "$ref", .str "#/b")]) :=
      .part (.entry List.mem_cons_self) (.part hitem (.second (.here _)))
    simpa [heldRef?, refField, Entries.field?, Entries.get?] using hwhole _ hwithin

end ApiContract.Description
