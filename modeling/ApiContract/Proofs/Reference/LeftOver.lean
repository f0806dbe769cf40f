import ApiContract.Proofs.Reference.Unfolding

/-!
# References that survive an expansion

Where `inline` succeeds, a reference survives for one of two reasons.  Either it closes a cycle:
whoever goes to its target and on along parts and references comes back to a node that holds it.
Or it stands inside a node that holds such a reference, beside it: that node is kept as it is in the
description, and nothing in it is looked at.  References of the second kind need not close a cycle,
and need not even lead anywhere.
-/

namespace ApiContract.Reference

variable {root node found held : Value} {path : List Step} {s : String}

/-- A reference of a description that leads back to a node that holds it. -/
structure IsCircular (root : Value) (s : String) : Prop where
  internal : ∃ rest, s.toList = '#' :: '/' :: rest
  returns : ∃ target path trail again, resolve root (.str s) = .ok target ∧
    LazyWalk root target path trail again ∧ heldRef? again = some (.str s)

/-- A path of the result that goes on inside a node whose reference closes a cycle.  That node is the
one of the description that the lazy walk comes to. -/
def IsBesideCircular (root result : Value) (path : List Step) : Prop :=
  ∃ before held s, before <+: path ∧ before ≠ path ∧ At result before held ∧
    heldRef? held = some (.str s) ∧ IsCircular root s ∧ IsLeftOver root before held

/-- Only a reference into the same document leads anywhere. -/
theorem internal_of_resolve {target : Value} (hresolve : resolve root (.str s) = .ok target) :
    ∃ rest, s.toList = '#' :: '/' :: rest := by
  unfold resolve at hresolve
  cases hparse : parse? (.str s) with
  | none => simp [hparse] at hresolve
  | some segments =>
      rw [parse?] at hparse
      split at hparse
      · exact ⟨_, ‹_›⟩
      · cases hparse

/-- A walk goes on from the target of each reference on its trail, along what is left of its path. -/
theorem LazyWalk.fromTarget {trail : List String} {last : Value}
    (hwalk : LazyWalk root node path trail last) (hs : s ∈ trail) :
    ∃ target rest later, rest <:+ path ∧ resolve root (.str s) = .ok target ∧
      LazyWalk root target rest later last := by
  induction hwalk with
  | here => simp at hs
  | follow _ hresolve hrest ih =>
      rcases List.mem_cons.mp hs with rfl | hlater
      · exact ⟨_, _, _, List.suffix_refl _, hresolve, hrest⟩
      · exact ih hlater
  | step _ _ _ ih =>
      obtain ⟨target, rest, later, hsuffix, hagain⟩ := ih hs
      exact ⟨target, rest, later, hsuffix.trans (List.suffix_cons _ _), hagain⟩

/-- What is left over closes a cycle. -/
theorem IsLeftOver.isCircular (hleft : IsLeftOver root path held) :
    ∃ s, heldRef? held = some (.str s) ∧ IsCircular root s := by
  obtain ⟨s, trail, hheld, hwalk, hs⟩ := hleft
  obtain ⟨target, rest, later, -, hresolve, hagain⟩ := hwalk.fromTarget hs
  exact ⟨s, hheld, internal_of_resolve hresolve, target, rest, later, held, hresolve, hagain, hheld⟩

/-- On the way to a node that holds a reference there is a first one that does. -/
theorem exists_clear_prefix {ref : Value} (hat : At node path found)
    (hheld : heldRef? found = some ref) :
    ∃ before first, before <+: path ∧ At node before first ∧ IsClear node before ∧
      heldRef? first ≠ none ∧ (before = path → first = found) := by
  induction hlength : path.length using Nat.strongRecOn generalizing path found ref with
  | ind length ih =>
      by_cases hclear : IsClear node path
      · exact ⟨path, found, List.prefix_refl _, hat, hclear, by simp [hheld], fun _ => rfl⟩
      · unfold IsClear at hclear
        push Not at hclear
        obtain ⟨before, earlier, hbefore, hne, hatEarlier, hearlier⟩ := hclear
        obtain ⟨ref, hearlier⟩ := Option.ne_none_iff_exists'.mp hearlier
        have hlt : before.length < length := by
          have hle := hbefore.length_le
          have hlengths : before.length ≠ path.length := fun heq => hne (hbefore.eq_of_length heq)
          omega
        obtain ⟨first, held, hfirst, hatFirst, hclear, hheld, -⟩ :=
          ih _ hlt hatEarlier hearlier rfl
        refine ⟨first, held, hfirst.trans hbefore, hatFirst, hclear, hheld, ?_⟩
        rintro rfl
        have hle := hfirst.length_le
        omega

end ApiContract.Reference

namespace ApiContract.Description

open Reference

variable {root result found : Value} {path : List Step}

/-- A node that holds a reference, and that is not inside another such node, is left over. -/
theorem isLeftOver_of_at (hsucceeds : (inline root).outcome = .ok result)
    (hat : At result path found) (hclear : IsClear result path) (hheld : heldRef? found ≠ none) :
    IsLeftOver root path found := by
  obtain ⟨hfailures, rfl⟩ := outcome_inline_eq_ok_iff.mp hsucceeds
  rw [expand_eq_expandUnder] at hfailures hat hclear
  obtain ⟨trail, last, hwalk, ⟨hnone, -⟩ | ⟨rfl, s, hs, hseen⟩⟩ :=
    matched_of_at_expandUnder (.refl root) hfailures hat hclear
  · exact absurd hnone hheld
  · exact ⟨s, trail, hs, hwalk, by simpa using hseen⟩

/-- In the result of `inline` every node that holds a reference either holds one that closes a
cycle, or stands inside a node that does and that is kept as it is in the description. -/
theorem inline_leaves_circular (hsucceeds : (inline root).outcome = .ok result)
    (hat : At result path found) {ref : Value} (hheld : heldRef? found = some ref) :
    (∃ s, ref = .str s ∧ IsCircular root s) ∨ IsBesideCircular root result path := by
  obtain ⟨before, held, hbefore, hatHeld, hclear, hpresent, hfound⟩ :=
    exists_clear_prefix hat hheld
  have hleft : IsLeftOver root before held := isLeftOver_of_at hsucceeds hatHeld hclear hpresent
  obtain ⟨s, hs, hcircular⟩ := hleft.isCircular
  by_cases hpath : before = path
  · obtain rfl := hfound hpath
    exact Or.inl ⟨s, by simpa [hs] using hheld.symm, hcircular⟩
  · exact Or.inr ⟨before, held, s, hbefore, hpath, hatHeld, hs, hcircular, hleft⟩

theorem ring_leaves_circular :
    (inline ring).outcome = .ok ringInlined ∧
      At ringInlined [.key (.str "start"), .key (.str "next")]
        (.map [(.str "$ref", .str "#/node")]) ∧
      ((∃ s, Value.str "#/node" = .str s ∧ IsCircular ring s) ∨
        IsBesideCircular ring ringInlined [.key (.str "start"), .key (.str "next")]) := by
  have hsucceeds : (inline ring).outcome = .ok ringInlined := by cbv
  have hat : At ringInlined [.key (.str "start"), .key (.str "next")]
      (.map [(.str "$ref", .str "#/node")]) :=
    .step (.entry List.mem_cons_self) (.step (.entry List.mem_cons_self) (.here _))
  exact ⟨hsucceeds, hat, inline_leaves_circular hsucceeds hat (by cbv)⟩

/-- A node that refers to its parent, with a reference out of the description beside it. -/
def shelter : Value :=
  .map [(.str "a", .map [(.str "b", .map [
    (.str "$ref", .str "#/a"), (.str "beside", .map [(.str "$ref", .str "http://x")])])])]

/-- The description `shelter` with one expanded level. -/
def shelterInlined : Value :=
  .map [(.str "a", .map [(.str "b", .map [(.str "b", .map [
    (.str "$ref", .str "#/a"), (.str "beside", .map [(.str "$ref", .str "http://x")])])])])]

theorem shelter_leaves_external :
    (inline shelter).outcome = .ok shelterInlined ∧
      (∃ path found, At shelterInlined path found ∧ heldRef? found = some (.str "http://x")) ∧
      ¬ IsCircular shelter "http://x" := by
  have hat : At shelterInlined
      [.key (.str "a"), .key (.str "b"), .key (.str "b"), .key (.str "beside")]
      (.map [(.str "$ref", .str "http://x")]) :=
    .step (.entry List.mem_cons_self) (.step (.entry List.mem_cons_self)
      (.step (.entry List.mem_cons_self)
        (.step (.entry (List.mem_cons_of_mem _ List.mem_cons_self)) (.here _))))
  refine ⟨by cbv, ⟨_, _, hat, by cbv⟩, ?_⟩
  intro hcircular
  obtain ⟨rest, hrest⟩ := hcircular.internal
  simp at hrest

end ApiContract.Description
