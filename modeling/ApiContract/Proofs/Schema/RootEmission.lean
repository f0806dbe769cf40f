import ApiContract.Proofs.Schema.Emission
import ApiContract.Proofs.Schema.RootConstruction

/-!
# The roots can be written

A description with a JSON text gives root schemas with a JSON text.  That a node has a JSON text is
kept by the steps of the builders, so it holds of everything that the roots consist of.
-/

namespace ApiContract.Schema

variable {document : Value} {collection : Collection}

theorem isJson_keys {es : Entries Node} (hes : ∀ e ∈ es,
    (Json.keyName? e.1).isSome = true ∧ e.2.toValue.isJson = true) :
    ∀ name ∈ Entries.keys es, name.isJson = true := by
  intro name hname
  obtain ⟨e, he, rfl⟩ := List.mem_map.mp hname
  exact Value.isJson_of_isKeyName (hes e he).1

/-- What is built from values with a JSON text has a JSON text. -/
theorem buildInvariant_isJson :
    BuildInvariant (·.isJson = true) (fun key => (Json.keyName? key).isSome = true)
      (·.toValue.isJson = true) where
  inherited := isJson_inherited
  key hv hentry := isKeyName_of_mem_entriesIn hv hentry
  text _ := rfl
  given hv := hv
  derived := isJson_of_deriveSchema
  pinned _ := rfl
  closed := isJson_object_iff.mpr .closed
  unrestricted := isJson_object_iff.mpr .unrestricted
  set ho hnode := isJson_object_iff.mpr ((isJson_object_iff.mp ho).set rfl hnode)
  require ho _ := isJson_object_iff.mpr ((isJson_object_iff.mp ho).require rfl)
  property ho hentry := ((isJson_object_iff.mp ho).properties _ hentry).2
  choice hbranches := isJson_choice fun branch hbranch =>
    isJson_object_iff.mp (hbranches branch hbranch)
  record _ hes := isJson_object_iff.mpr ⟨hes, isJson_keys hes, rfl⟩
  kind hmembers := isJson_object_iff.mpr
    (IsJsonObject.requireAll ⟨hmembers, nofun, rfl⟩ (isJson_keys hmembers))

theorem isJson_token {token : Token} (htable : ∀ entry ∈ token, ∀ member ∈ entry.2,
    (Json.keyName? member.1).isSome = true ∧ member.2.toValue.isJson = true) :
    token.toValue.isJson = true := by
  rw [Token.toValue_eq, tableEntries, Value.isJson_map_iff, List.forall_mem_map]
  intro entry hentry
  exact ⟨rfl, isJson_entriesToValues_iff.mpr (htable entry hentry)⟩

/-! ## Roots -/

theorem isJson_of_buildTree {tree : Tree} (hjson : document.isJson = true)
    (hbuilt : (buildTree collection document).outcome = .ok tree) :
    tree.toValue.isJson = true := by
  obtain ⟨hmembers, htoken⟩ := buildInvariant_isJson.buildTree hjson hbuilt
  have htable := isJson_token (buildInvariant_isJson.componentsToken hjson htoken)
  rw [Node.toValue, Value.isJson_map_iff] at hmembers
  rw [Tree.toValue, Node.toValue, Value.isJson_map_iff]
  exact List.forall_mem_append.mpr ⟨hmembers, by simpa using ⟨rfl, htable⟩⟩

/-- The root schemas of a description with a JSON text have one. -/
theorem isJson_of_buildRoots {roots : Roots} (hjson : document.isJson = true)
    (hbuilt : (buildRoots document).outcome = .ok roots) (names : List RootName) :
    (roots.select names).isJson = true := by
  have hnodes := buildInvariant_isJson.buildRoots hjson hbuilt
  simp only [buildRoots, Traced.outcome_bind, Traced.outcome_pure, bind_eq_ok_iff] at hbuilt
  obtain ⟨paths, hpaths, webhooks, hwebhooks, token, htoken, hbuilt⟩ := hbuilt
  cases hbuilt
  rw [Roots.select, Value.isJson_map_iff, List.forall_mem_map]
  intro name _
  refine ⟨rfl, ?_⟩
  cases name with
  | paths => exact isJson_of_buildTree hjson hpaths
  | webhooks => exact isJson_of_buildTree hjson hwebhooks
  | components => exact hnodes _ (by simp [Roots.nodes])

end ApiContract.Schema
