import ApiContract.Description.Inline
import ApiContract.Proofs.Reference.Recursion
import Mathlib.Data.List.Nodup
import Mathlib.Data.List.Permutation
import Mathlib.Tactic.Tauto

/-!
# The expansion is the lazy unfolding

A description with references stands for a tree that may be infinite: wherever a node holds a
reference, the target stands in its place.  `LazyWalk` goes along a path of that tree without
building it, one reference or one step at a time, and keeps a trail of the references that it
followed.  `At` goes along a path of a finished value.

The main statement: where `inline` succeeds, its result and the lazy unfolding agree along every
path, up to the references that the expansion left over; and a reference is left over only where
the walk comes back to one that is on its trail already.
-/

namespace ApiContract.Reference

variable {root node : Value} {active : List String} {place : Location}

/-- The node at a path of a value. -/
inductive At : Value → List Step → Value → Prop
  | here (node : Value) : At node [] node
  | step {node part last : Value} {edge : Step} {path : List Step} (hpart : Part node edge part)
      (hrest : At part path last) : At node (edge :: path) last

/-- A walk along a path in which references give way to their targets in the description `root`.
The list of texts is the trail of the references that are followed.  A step is taken only from a
node that holds no reference. -/
inductive LazyWalk (root : Value) : Value → List Step → List String → Value → Prop
  | here (node : Value) : LazyWalk root node [] [] node
  | follow {node target last : Value} {path : List Step} {s : String} {trail : List String}
      (hheld : heldRef? node = some (.str s)) (hresolve : resolve root (.str s) = .ok target)
      (hrest : LazyWalk root target path trail last) : LazyWalk root node path (s :: trail) last
  | step {node part last : Value} {edge : Step} {path : List Step} {trail : List String}
      (hplain : heldRef? node = none) (hpart : Part node edge part)
      (hrest : LazyWalk root part path trail last) : LazyWalk root node (edge :: path) trail last

/-- The lazy walk of a path ends at a node: all references on the way are followed, also those at
the end. -/
def UnfoldsTo (root : Value) (path : List Step) (last : Value) : Prop :=
  heldRef? last = none ∧ ∃ trail, LazyWalk root root path trail last

/-- A reference that is left over at a path: the lazy walk comes to the node that holds it when it
has followed that reference before. -/
def IsLeftOver (root : Value) (path : List Step) (held : Value) : Prop :=
  ∃ s trail, heldRef? held = some (.str s) ∧ LazyWalk root root path trail held ∧ s ∈ trail

/-- No node that a path goes through holds a reference; the last node may. -/
def IsClear (node : Value) (path : List Step) : Prop :=
  ∀ before held, before <+: path → before ≠ path → At node before held → heldRef? held = none

theorem IsClear.tail {part : Value} {edge : Step} {path : List Step}
    (hclear : IsClear node (edge :: path)) (hpart : Part node edge part) : IsClear part path := by
  intro before held hbefore hne hat
  refine hclear (edge :: before) held ?_ ?_ (.step hpart hat)
  · exact List.cons_prefix_cons.mpr ⟨rfl, hbefore⟩
  · simpa using hne

/-! ## Where a walk ends -/

/-- No mapping in a value declares a key twice. -/
def HasDistinctKeys (node : Value) : Prop :=
  ∀ path entries, At node path (.map entries) → (Entries.keys entries).Nodup

theorem HasDistinctKeys.part {part : Value} {edge : Step} (hdistinct : HasDistinctKeys node)
    (hpart : Part node edge part) : HasDistinctKeys part :=
  fun path entries hat => hdistinct (edge :: path) entries (.step hpart hat)

theorem HasDistinctKeys.target {ref target : Value} (hdistinct : HasDistinctKeys root)
    (hresolve : resolve root ref = .ok target) : HasDistinctKeys target :=
  resolve_inherits (fun _ _ _ hnode hpart => hnode.part hpart) hdistinct hresolve

theorem HasDistinctKeys.part_unique {left right : Value} {edge : Step}
    (hdistinct : HasDistinctKeys node) (hleft : Part node edge left)
    (hright : Part node edge right) : left = right := by
  cases hleft with
  | item hitem =>
      cases hright with
      | item hother => exact Option.some.inj (hitem.symm.trans hother)
  | entry hentry =>
      cases hright with
      | entry hother =>
          have hentries := List.inj_on_of_nodup_map (hdistinct [] _ (.here _)) hentry hother rfl
          exact congrArg Prod.snd hentries

/-- All walks of a path that follow every reference on the way end at one node. -/
theorem LazyWalk.unique {path : List Step} {trail otherTrail : List String} {last other : Value}
    (hroot : HasDistinctKeys root) (hnode : HasDistinctKeys node)
    (hwalk : LazyWalk root node path trail last)
    (hotherWalk : LazyWalk root node path otherTrail other)
    (hlast : heldRef? last = none) (hother : heldRef? other = none) : last = other := by
  induction hwalk generalizing otherTrail with
  | here node =>
      cases hotherWalk with
      | here => rfl
      | follow hheld => simp [hlast] at hheld
  | follow hheld hresolve _ ih =>
      cases hotherWalk with
      | here => simp [hother] at hheld
      | step hplain => simp [hplain] at hheld
      | follow hheld' hresolve' hrest =>
          obtain rfl := Value.str.inj (Option.some.inj (hheld.symm.trans hheld'))
          obtain rfl := Except.ok.inj (hresolve.symm.trans hresolve')
          exact ih (hroot.target hresolve) hrest hlast
  | step hplain hpart _ ih =>
      cases hotherWalk with
      | follow hheld => simp [hplain] at hheld
      | step _ hpart' hrest =>
          obtain rfl := hnode.part_unique hpart hpart'
          exact ih (hnode.part hpart) hrest hlast

/-! ## From the result to the walk -/

/-- Where a path of an expanded node is matched by a lazy walk.  The walk ends at a node of the
same shape, or at the very node, which then holds a reference that was followed before. -/
def Matched (root : Value) (active : List String) (node : Value) (path : List Step)
    (found : Value) : Prop :=
  ∃ trail last, LazyWalk root node path trail last ∧
    ((heldRef? found = none ∧ heldRef? last = none ∧ last.shape = found.shape) ∨
      (last = found ∧ ∃ s, heldRef? found = some (.str s) ∧ (s ∈ trail ∨ s ∈ active)))

theorem matched_of_at_expandUnder {path : List Step} {found : Value} (hinside : Inside root node)
    (hsucceeds : (expandUnder root active place node).failures = [])
    (hat : At (expandUnder root active place node).node path found)
    (hclear : IsClear (expandUnder root active place node).node path) :
    Matched root active node path found := by
  induction active, node, hinside using visit_induction generalizing place path with
  | plain active node _ hplain ih =>
      cases hat with
      | here =>
          have hshape : (expandUnder root active place node).node.shape = node.shape :=
            shape_expandUnder hplain
          refine ⟨[], node, .here node, Or.inl ⟨?_, hplain, hshape.symm⟩⟩
          exact heldRef?_eq_none_of_shape hshape.symm hplain
      | step hpart hrest =>
          have hclearPart := hclear.tail hpart
          obtain ⟨part, hbefore, rfl⟩ := (part_expandUnder_iff hplain).mp hpart
          have hsucceedsPart := failures_eq_nil_of_part hplain hsucceeds hbefore
          obtain ⟨trail, last, hwalk, hend⟩ := ih _ part hbefore hsucceedsPart hrest hclearPart
          exact ⟨trail, last, .step hplain hbefore hwalk, hend⟩
  | kept active node _ s hheld hs =>
      rw [expandUnder_of_active hheld hs] at hat hclear
      cases hat with
      | here => exact ⟨[], node, .here node, Or.inr ⟨rfl, s, hheld, Or.inr hs⟩⟩
      | step hpart hrest =>
          have hnone := hclear [] node (List.nil_prefix) (by simp) (.here node)
          simp [hheld] at hnone
  | dangling active node hinside ref e hheld hactive hresolve =>
      rw [expandUnder_of_dangling hinside hheld hactive hresolve] at hsucceeds
      simp at hsucceeds
  | resolved active node hinside s target hheld hactive hresolve ih =>
      rw [expandUnder_of_resolved hinside hheld hactive hresolve] at hsucceeds hat hclear
      obtain ⟨trail, last, hwalk, hend⟩ := ih hsucceeds hat hclear
      refine ⟨s :: trail, last, .follow hheld hresolve hwalk, hend.imp_right ?_⟩
      intro hleft
      obtain ⟨rfl, other, hother, hseen⟩ := hleft
      refine ⟨rfl, other, hother, ?_⟩
      rw [List.mem_cons] at hseen ⊢
      tauto

/-! ## From the walk to the result -/

/-- A lazy walk is found again in the expanded node, unless it runs into a reference that is left
over on the way. -/
theorem exists_at_expandUnder {path : List Step} {trail : List String} {last : Value}
    (hinside : Inside root node)
    (hsucceeds : (expandUnder root active place node).failures = [])
    (hwalk : LazyWalk root node path trail last) :
    (∃ found, At (expandUnder root active place node).node path found) ∨
      ∃ before held s seen, before <+: path ∧
        At (expandUnder root active place node).node before held ∧
        heldRef? held = some (.str s) ∧ LazyWalk root node before seen held ∧
        (s ∈ seen ∨ s ∈ active) := by
  induction active, node, hinside using visit_induction generalizing place path trail with
  | plain active node _ hplain ih =>
      cases hwalk with
      | here => exact Or.inl ⟨_, .here _⟩
      | follow hheld => simp [hplain] at hheld
      | step _ hpart hrest =>
          have hsucceedsPart := failures_eq_nil_of_part hplain hsucceeds hpart
          have hafter := part_expandUnder root active place hplain hpart
          rcases ih _ _ hpart hsucceedsPart hrest with ⟨found, hat⟩ | hleft
          · exact Or.inl ⟨found, .step hafter hat⟩
          · obtain ⟨before, held, s, seen, hbefore, hat, hheld, hseen, hs⟩ := hleft
            refine Or.inr ⟨_ :: before, held, s, seen, ?_, .step hafter hat, hheld,
              .step hplain hpart hseen, hs⟩
            exact List.cons_prefix_cons.mpr ⟨rfl, hbefore⟩
  | kept active node _ s hheld hs =>
      -- The expansion stops here.  The walk may go on, but it has followed this reference before.
      rw [expandUnder_of_active hheld hs]
      exact Or.inr ⟨[], node, s, [], List.nil_prefix, .here node, hheld, .here node, Or.inr hs⟩
  | dangling active node hinside ref e hheld hactive hresolve =>
      rw [expandUnder_of_dangling hinside hheld hactive hresolve] at hsucceeds
      simp at hsucceeds
  | resolved active node hinside s target hheld hactive hresolve ih =>
      rw [expandUnder_of_resolved hinside hheld hactive hresolve] at hsucceeds ⊢
      cases hwalk with
      | here => exact Or.inl ⟨_, .here _⟩
      | step hplain => simp [hheld] at hplain
      | follow hother hok hrest =>
          obtain rfl : s = _ := by simpa [hheld] using hother
          obtain rfl : target = _ := by simpa [hresolve] using hok
          rcases ih hsucceeds hrest with hat | hleft
          · exact Or.inl hat
          · obtain ⟨before, held, other, seen, hbefore, hat, hother, hseen, hs⟩ := hleft
            refine Or.inr ⟨before, held, other, s :: seen, hbefore, hat, hother,
              .follow hheld hresolve hseen, ?_⟩
            rw [List.mem_cons] at hs ⊢
            tauto

end ApiContract.Reference

namespace ApiContract.Description

open Reference

variable {root result : Value}

/-- A value is the lazy unfolding of a description, cut only at references that are left over.  A
path of the value that goes through no reference ends either at one that is left over, or at a node
of the shape that the lazy walk of the path ends at.  Conversely, a path of the unfolding is one of
the value, or it begins with one that ends at a reference that is left over. -/
structure IsLazyUnfolding (root result : Value) : Prop where
  unfolds : ∀ path found, At result path found → IsClear result path →
    IsLeftOver root path found ∨
      (heldRef? found = none ∧ ∃ last, UnfoldsTo root path last ∧ last.shape = found.shape)
  covers : ∀ path trail last, LazyWalk root root path trail last →
    (∃ found, At result path found) ∨
      ∃ before held, before <+: path ∧ At result before held ∧ IsLeftOver root before held

/-- Where `inline` succeeds, its result is the lazy unfolding of the description. -/
theorem inline_isLazyUnfolding (hsucceeds : (inline root).outcome = .ok result) :
    IsLazyUnfolding root result := by
  obtain ⟨hfailures, rfl⟩ := outcome_inline_eq_ok_iff.mp hsucceeds
  rw [expand_eq_expandUnder] at hfailures ⊢
  constructor
  · intro path found hat hclear
    obtain ⟨trail, last, hwalk, ⟨hfound, hlast, hshape⟩ | ⟨rfl, s, hheld, hs⟩⟩ :=
      matched_of_at_expandUnder (.refl root) hfailures hat hclear
    · exact Or.inr ⟨hfound, last, ⟨hlast, trail, hwalk⟩, hshape⟩
    · exact Or.inl ⟨s, trail, hheld, hwalk, by simpa using hs⟩
  · intro path trail last hwalk
    rcases exists_at_expandUnder (.refl root) hfailures hwalk with hat | hleft
    · exact Or.inl hat
    · obtain ⟨before, held, s, seen, hbefore, hat, hheld, hseen, hs⟩ := hleft
      exact Or.inr ⟨before, held, hbefore, hat, s, seen, hheld, hseen, by simpa using hs⟩

/-- A node that refers to itself, and a reference to it. -/
def ring : Value :=
  .map [
    (.str "start", .map [(.str "$ref", .str "#/node")]),
    (.str "node", .map [(.str "next", .map [(.str "$ref", .str "#/node")])])]

/-- The description `ring` with one expanded level. -/
def ringInlined : Value :=
  .map [
    (.str "start", .map [(.str "next", .map [(.str "$ref", .str "#/node")])]),
    (.str "node", .map [(.str "next", .map [(.str "next", .map [(.str "$ref", .str "#/node")])])])]

theorem ring_isLazyUnfolding :
    (inline ring).outcome = .ok ringInlined ∧ IsLazyUnfolding ring ringInlined := by
  have hsucceeds : (inline ring).outcome = .ok ringInlined := by cbv
  exact ⟨hsucceeds, inline_isLazyUnfolding hsucceeds⟩

end ApiContract.Description
