import ApiContract.Proofs.Description.Loading
import ApiContract.Proofs.Reference.LeftOver

/-!
# The root of an inlined description

Loading checks that a description is a mapping.  Inlining comes afterwards, and it replaces the root
like any other node: a root that holds a reference gives way to its target, and that to its target
in turn.  Such a chain of references ends at a node without one, or it goes round for ever, and it
does only one of the two because every reference has one target.  If it goes round, a mapping with a
reference is left over; if it ends, what the root becomes has the shape of the node at the end, and
that may be anything.
-/

namespace ApiContract.Reference

variable {root node held last : Value} {seen trail : List String} {s : String}

/-! ## Chains of references -/

/-- A chain that ends has come by every node that the chain comes to. -/
theorem LazyWalk.goesOn (hwalk : LazyWalk root node [] seen held)
    (hends : LazyWalk root node [] trail last) (hlast : heldRef? last = none) :
    ∃ rest, trail = seen ++ rest ∧ LazyWalk root held [] rest last := by
  generalize hpath : ([] : List Step) = path at hwalk
  induction hwalk generalizing trail with
  | here node => exact ⟨trail, rfl, hends⟩
  | follow hheld hresolve _ ih =>
      cases hends with
      | here => simp [hlast] at hheld
      | follow hheld' hresolve' hrest =>
          obtain rfl := Value.str.inj (Option.some.inj (hheld.symm.trans hheld'))
          obtain rfl := Except.ok.inj (hresolve.symm.trans hresolve')
          obtain ⟨rest, rfl, hlater⟩ := ih hrest hpath
          exact ⟨rest, rfl, hlater⟩
  | step => cases hpath

/-- A chain of references that comes back to one of them does not end. -/
theorem IsLeftOver.not_unfoldsTo (hleft : IsLeftOver root [] held) :
    ¬ UnfoldsTo root [] last := by
  rintro ⟨hlast, trail, hends⟩
  obtain ⟨s, seen, hheld, hwalk, hs⟩ := hleft
  obtain ⟨target, ahead, round, hahead, hresolve, hback⟩ := hwalk.fromTarget hs
  obtain rfl := List.suffix_nil.mp hahead
  obtain ⟨rest, -, hrest⟩ := hwalk.goesOn hends hlast
  cases hrest with
  | here => simp [hlast] at hheld
  | @follow _ target' _ _ s' later hheld' hresolve' hlater =>
      obtain rfl := Value.str.inj (Option.some.inj (hheld.symm.trans hheld'))
      obtain rfl := Except.ok.inj (hresolve.symm.trans hresolve')
      -- Once around, the walk from the target has as far to go as before.
      obtain ⟨again, hlaterEq, hagain⟩ := hback.goesOn hlater hlast
      obtain ⟨more, hagainEq, -⟩ := (LazyWalk.follow hheld hresolve hlater).goesOn hagain hlast
      have hlength := congrArg List.length hlaterEq
      rw [hagainEq] at hlength
      simp only [List.length_append, List.length_cons] at hlength
      omega

/-- The root unfolds to one node at most. -/
theorem UnfoldsTo.unique {other : Value} (hlast : UnfoldsTo root [] last)
    (hother : UnfoldsTo root [] other) : last = other := by
  obtain ⟨hplain, trail, hwalk⟩ := hlast
  obtain ⟨hplainOther, otherTrail, hotherWalk⟩ := hother
  obtain ⟨rest, -, hrest⟩ := hwalk.goesOn hotherWalk hplainOther
  cases hrest with
  | here => rfl
  | follow hheld => simp [hplain] at hheld

/-! ## What the root becomes -/

/-- If the references at the root lead to an end, it is a mapping. -/
def EndsInMapping (root : Value) : Prop :=
  ∀ last, UnfoldsTo root [] last → ∃ entries, last = .map entries

theorem exists_map_of_shape {left right : Value} {entries : Entries}
    (hshape : left.shape = right.shape) (hleft : left = .map entries) :
    ∃ entries, right = .map entries := by
  subst hleft
  cases alike_of_shape hshape with
  | map => exact ⟨_, rfl⟩
  | scalar => exact ⟨entries, rfl⟩

theorem exists_map_of_heldRef? {ref : Value} (hheld : heldRef? node = some ref) :
    ∃ entries, node = .map entries := by
  cases node with
  | map entries => exact ⟨entries, rfl⟩
  | _ => simp [heldRef?] at hheld

theorem isMapping_expand_iff (hsucceeds : (expand root).failures = []) :
    (∃ entries, (expand root).node = .map entries) ↔ EndsInMapping root := by
  rw [expand_eq_expandUnder] at hsucceeds ⊢
  have hclear : IsClear (expandUnder root [] [] root).node [] :=
    fun before _ hbefore hne => absurd (List.prefix_nil.mp hbefore) hne
  obtain ⟨trail, last, hwalk, ⟨-, hplain, hshape⟩ | ⟨rfl, s, hheld, hs⟩⟩ :=
    matched_of_at_expandUnder (.refl root) hsucceeds (.here _) hclear
  · have hlast : UnfoldsTo root [] last := ⟨hplain, trail, hwalk⟩
    constructor
    · rintro ⟨entries, hentries⟩ other hother
      rw [← hlast.unique hother]
      exact exists_map_of_shape hshape.symm hentries
    · intro hends
      obtain ⟨entries, hentries⟩ := hends last hlast
      exact exists_map_of_shape hshape hentries
  · have hleft : IsLeftOver root [] (expandUnder root [] [] root).node :=
      ⟨s, trail, hheld, hwalk, by simpa using hs⟩
    constructor
    · exact fun _ other hother => absurd hother hleft.not_unfoldsTo
    · exact fun _ => exists_map_of_heldRef? hheld

end ApiContract.Reference

namespace ApiContract.Description

open Host Reference

theorem outcome_loadInline (w : World) (timeout : Binary64) (source : String) :
    (loadInline w timeout source).outcome =
      (load w timeout source).outcome >>= fun description =>
        version description >>= fun _ => (inline description).outcome := by
  simp [loadInline]

theorem isMapping_of_inline_iff {root result : Value}
    (hsucceeds : (inline root).outcome = .ok result) :
    ((∃ entries, result = .map entries) ↔ EndsInMapping root) ∧
      (heldRef? root = none → result.shape = root.shape) := by
  obtain ⟨hfailures, rfl⟩ := outcome_inline_eq_ok_iff.mp hsucceeds
  refine ⟨isMapping_expand_iff hfailures, fun hplain => ?_⟩
  rw [expand_eq_expandUnder, shape_expandUnder hplain]

/-- What a description is inlined to is a mapping exactly if the references at its root do not lead
to anything else; in particular, a mapping without a reference at its root keeps its keys.  The same
decides whether a mapping is what loading and inlining give, since loading gives one. -/
theorem inline_isMapping_iff (root : Value) (w : World) (timeout : Binary64) (source : String) :
    (∀ result, (inline root).outcome = .ok result →
      ((∃ entries, result = .map entries) ↔ EndsInMapping root) ∧
      (heldRef? root = none → result.shape = root.shape)) ∧
    ∀ result, (loadInline w timeout source).outcome = .ok result →
      ∃ declared, (load w timeout source).outcome = .ok (.map declared) ∧
        ((∃ entries, result = .map entries) ↔ EndsInMapping (.map declared)) := by
  refine ⟨fun _ => isMapping_of_inline_iff, fun result hsucceeds => ?_⟩
  rw [outcome_loadInline] at hsucceeds
  obtain ⟨description, hload, hrest⟩ := Schema.bind_eq_ok_iff.mp hsucceeds
  obtain ⟨_, -, hinlined⟩ := Schema.bind_eq_ok_iff.mp hrest
  have hread := hload
  rw [outcome_load] at hread
  obtain ⟨s, -, hread⟩ := Schema.bind_eq_ok_iff.mp hread
  obtain ⟨declared, rfl⟩ := exists_map_of_ofSourceText hread
  exact ⟨declared, hload, (isMapping_of_inline_iff hinlined).1⟩

/-- A description whose root refers to a mapping by way of a second reference. -/
def forwarded : Value :=
  .map [
    (.str "openapi", .str "3.1.0"),
    (.str "$ref", .str "#/first"),
    (.str "first", .map [(.str "$ref", .str "#/second")]),
    (.str "second", .map [(.str "paths", .map [])])]

/-- A description whose root refers to its own version. -/
def selfNamed : Value :=
  .map [(.str "openapi", .str "3.1.0"), (.str "$ref", .str "#/openapi")]

/-- A host with that description on standard input. -/
def selfNamedInput : World :=
  { files := ⟨[(["work"], .directory)]⟩, cwd := ["work"], environment := [], platform := "Linux"
    replies := [], stdin := "\x7b\"openapi\": \"3.1.0\", \"$ref\": \"#/openapi\"\x7d"
    isTerminal := false, stamp := "0" }

theorem outcome_loadInline_selfNamedInput :
    (loadInline selfNamedInput .zero "-").outcome = .ok (.str "3.1.0") := by
  have hsame : (loadInline selfNamedInput .zero "-").outcome.toOption.any
      (·.same (.str "3.1.0")) = true := by decide +kernel
  obtain ⟨result, hresult, hsame⟩ := Schema.exists_eq_ok_of_any hsame
  rw [hresult, Value.eq_str_of_same hsame]

theorem forwarded_isMapping :
    EndsInMapping forwarded ∧
    ∃ declared, (load selfNamedInput .zero "-").outcome = .ok (.map declared) ∧
      ¬ EndsInMapping (.map declared) := by
  constructor
  · have hsucceeds : (inline forwarded).outcome = .ok (.map [(.str "paths", .map [])]) := by cbv
    exact ((inline_isMapping_iff forwarded selfNamedInput .zero "-").1 _ hsucceeds).1.mp ⟨_, rfl⟩
  · obtain ⟨declared, hload, hiff⟩ :=
      (inline_isMapping_iff forwarded _ _ _).2 _ outcome_loadInline_selfNamedInput
    refine ⟨declared, hload, fun hends => ?_⟩
    obtain ⟨entries, ⟨⟩⟩ := hiff.mpr hends

/-- The description is a mapping of a supported version.  It is inlined to a text, and a text is what
loading and inlining give for it. -/
theorem selfNamed_inlines_to_text :
    (inline selfNamed).outcome = .ok (.str "3.1.0") ∧
    (loadInline selfNamedInput .zero "-").outcome = .ok (.str "3.1.0") ∧
    ¬ ∃ entries, Value.str "3.1.0" = .map entries := by
  refine ⟨by cbv, outcome_loadInline_selfNamedInput, ?_⟩
  rintro ⟨entries, ⟨⟩⟩

end ApiContract.Description
