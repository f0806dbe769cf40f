import ApiContract.Description.Inline
import ApiContract.Proofs.Reference.PlainPointer
import ApiContract.Proofs.Schema.ComponentTable

/-!
# Which references a tree resolves itself

A tree carries the component table, so a reference that the expansion left over can be followed in
the tree if the table has what it points to.  Schemas are in the table as they are in the expanded
description, and there they stand where they stood before the expansion.  A tree has no other parts
of the description under the names that they have there, so a reference past the components leads
nowhere in it.
-/

namespace ApiContract.Schema

open Reference

variable {root document target ref : Value} {collection : Collection} {tree : Tree}
  {name : List Char} {rest : List (List Char)}

/-- The segments of a pointer to a schema component, or to a part of it. -/
def schemaPointer (name : List Char) (rest : List (List Char)) : List (List Char) :=
  "components".toList :: ComponentKind.schemas.name.toList :: name :: rest

/-- The fields of a tree. -/
def treeFields : List String := ["type", "properties", "required", "additionalProperties",
  "components"]

theorem exists_fields_of_tree (tree : Tree) :
    ∃ fields : Entries, tree.toValue = .map fields ∧
      Entries.keys fields = treeFields.map Value.str ∧
      Entries.field? fields "components" = some (.map (tableEntries tree.components)) := by
  rw [Tree.toValue, Node.toValue]
  exact ⟨_, rfl, rfl, by simp [field?_cons_str, Token.toValue_eq]⟩

theorem step_tree_components (tree : Tree) :
    step tree.toValue "components".toList = .ok (.map (tableEntries tree.components)) := by
  obtain ⟨fields, htree, -, hcomponents⟩ := exists_fields_of_tree tree
  rw [htree, step_map_eq_ok_iff, String.ofList_toList]
  exact hcomponents

/-- A tree has nothing but its fields. -/
theorem step_tree_of_not_mem {segment : List Char}
    (hforeign : String.ofList segment ∉ treeFields) :
    step tree.toValue segment = .error (.missingKey segment) := by
  obtain ⟨fields, htree, hkeys, -⟩ := exists_fields_of_tree tree
  have hnone : Entries.field? fields (String.ofList segment) = none := by
    rw [Entries.field?_eq_none_iff, hkeys]
    simpa using hforeign
  rw [htree, step, hnone]

/-- What a pointer finds among the schemas of a description it finds in the trees as well. -/
theorem resolve_tree_of_document (hbuilt : (buildTree collection document).outcome = .ok tree)
    (hparse : parse? ref = some (schemaPointer name rest))
    (hresolve : resolve document ref = .ok target) : resolve tree.toValue ref = .ok target := by
  obtain ⟨es, entries, rfl, hentries, htoken⟩ :=
    componentsToken_eq_ok_iff.mp (cases_of_buildTree hbuilt).1
  simp only [resolve, hparse, schemaPointer, follow_cons_eq_ok_iff] at hresolve ⊢
  obtain ⟨components, hcomponents, schemas, hschemas, found, hfound, hfollow⟩ := hresolve
  have hcomponents : Entries.field? es "components" = some components := by
    simpa [step_map_eq_ok_iff] using hcomponents
  rw [Entries.fieldD, hcomponents, Option.getD_some] at hentries
  obtain rfl := entriesIn_of_entriesIfAny hentries
  obtain ⟨fields, rfl, hfield⟩ := exists_field?_of_step (by decide) hschemas
  rw [String.ofList_toList] at hfield
  -- A list of schemas has positions to lead to, but no table can be built from it.
  obtain ⟨declared, rfl⟩ : ∃ declared, schemas = .map declared :=
    exists_map_of_mem htoken (Entries.mem_of_field? hfield) (truthy_of_step hfound)
  have hsome : declared ≠ [] := by simpa [Value.truthy] using truthy_of_step hfound
  refine ⟨_, step_tree_components tree, .map declared, ?_, found, hfound, hfollow⟩
  rw [step_map_eq_ok_iff, String.ofList_toList]
  exact field?_entries_schemas htoken hfield hsome

/-- Where the trees of an expanded description lead.  A reference to a schema component, or to a
part of one, leads to the expansion of what it leads to in the description itself, if its pointer
passes no reference there.  A reference whose pointer does not begin with a field of the trees
leads nowhere. -/
theorem buildTree_resolves_schemas {s : String}
    (hinlined : (Description.inline root).outcome = .ok document)
    (hbuilt : (buildTree collection document).outcome = .ok tree) :
    (∀ name rest target, parse? (.str s) = some (schemaPointer name rest) →
      LeadsPlainly root (schemaPointer name rest) target →
        ∃ place, resolve tree.toValue (.str s) = .ok (expandUnder root [] place target).node) ∧
    (∀ segment rest, parse? (.str s) = some (segment :: rest) →
      String.ofList segment ∉ treeFields →
        resolve tree.toValue (.str s) = .error (.missingKey segment)) := by
  constructor
  · intro name rest target hparse hleads
    obtain ⟨-, rfl⟩ := Description.outcome_inline_eq_ok_iff.mp hinlined
    obtain ⟨place, hfollow⟩ := follow_expandUnder root [] [] hleads
    refine ⟨place, resolve_tree_of_document hbuilt hparse ?_⟩
    rw [resolve, hparse, expand_eq_expandUnder]
    exact hfollow
  · intro segment rest hparse hforeign
    simp [resolve, hparse, follow, step_tree_of_not_mem hforeign, bind, Except.bind]

/-- A schema component that refers to itself. -/
def chain : Value :=
  .map [(.str "components", .map [(.str "schemas", .map [(.str "Link",
    .map [(.str "next", .map [(.str "$ref", .str "#/components/schemas/Link")])])])])]

/-- The description `chain` with one expanded level. -/
def chainInlined : Value :=
  .map [(.str "components", .map [(.str "schemas", .map [(.str "Link", .map [(.str "next",
    .map [(.str "next", .map [(.str "$ref", .str "#/components/schemas/Link")])])])])])]

def chainTree : Tree :=
  ⟨.closed, [(.schemas, [(.str "Link", .given (.map [(.str "next",
    .map [(.str "next", .map [(.str "$ref", .str "#/components/schemas/Link")])])]))])]⟩

theorem inline_chain : (Description.inline chain).outcome = .ok chainInlined := by
  have hresolve : resolve chain (.str "#/components/schemas/Link") = .ok (.map [(.str "next",
      .map [(.str "$ref", .str "#/components/schemas/Link")])]) := by cbv
  have hreferences : distinctReferences chain = ["#/components/schemas/Link"] := by cbv
  -- Said of any description that resolves the reference, so that `chain` unfolds as the node only.
  have hexpand : ∀ root, resolve root (.str "#/components/schemas/Link") = .ok (.map [(.str "next",
      .map [(.str "$ref", .str "#/components/schemas/Link")])]) →
      expandWithin root 1 ["#/components/schemas/Link"] [] chain = ⟨chainInlined, []⟩ := by
    intro root hroot
    simp [expandWithin, chain, chainInlined, walk, walkEntries, refField, hop, isActive, hroot,
      Entries.field?, Entries.get?]
  have hexpanded : expand chain = ⟨chainInlined, []⟩ := by
    rw [expand, hreferences]
    exact hexpand chain hresolve
  simp [Description.outcome_inline_eq_ok_iff, hexpanded]

theorem chainTree_resolves_schemas :
    (Description.inline chain).outcome = .ok chainInlined ∧
      (buildTree .paths chainInlined).outcome = .ok chainTree ∧
      (∀ name rest target,
        parse? (.str "#/components/schemas/Link") = some (schemaPointer name rest) →
          LeadsPlainly chain (schemaPointer name rest) target →
            ∃ place, resolve chainTree.toValue (.str "#/components/schemas/Link") =
              .ok (expandUnder chain [] place target).node) ∧
      (∀ segment rest, parse? (.str "#/components/schemas/Link") = some (segment :: rest) →
        String.ofList segment ∉ treeFields →
          resolve chainTree.toValue (.str "#/components/schemas/Link") =
            .error (.missingKey segment)) := by
  have hbuilt : (buildTree .paths chainInlined).outcome = .ok chainTree := by cbv
  exact ⟨inline_chain, hbuilt, buildTree_resolves_schemas inline_chain hbuilt⟩

/-- A node outside the components that refers to itself, and a parameter of that schema. -/
def detour : Value :=
  .map [
    (.str "paths", .map [(.str "/a", .map [(.str "get", .map [(.str "parameters", .list [
      .map [(.str "name", .str "q"), (.str "in", .str "query"),
        (.str "schema", .map [(.str "$ref", .str "#/x-node")])]])])])]),
    (.str "x-node", .map [(.str "next", .map [(.str "$ref", .str "#/x-node")])])]

/-- The description `detour` with one expanded level. -/
def detourInlined : Value :=
  .map [
    (.str "paths", .map [(.str "/a", .map [(.str "get", .map [(.str "parameters", .list [
      .map [(.str "name", .str "q"), (.str "in", .str "query"),
        (.str "schema", .map [(.str "next", .map [(.str "$ref", .str "#/x-node")])])]])])])]),
    (.str "x-node", .map [(.str "next",
      .map [(.str "next", .map [(.str "$ref", .str "#/x-node")])])])]

theorem detourTree_dangles :
    (Description.inline detour).outcome = .ok detourInlined ∧
      ∃ tree, (buildTree .paths detourInlined).outcome = .ok tree ∧
        "#/x-node" ∈ references tree.toValue ∧
        resolve tree.toValue (.str "#/x-node") = .error (.missingKey "x-node".toList) := by
  refine ⟨by cbv, ?_⟩
  have hkept : (buildTree .paths detourInlined).outcome.toOption.any
      (fun tree => (references tree.toValue).contains "#/x-node") = true := by decide +kernel
  cases hbuilt : (buildTree .paths detourInlined).outcome with
  | error fault => simp [hbuilt, Except.toOption] at hkept
  | ok tree =>
      refine ⟨tree, rfl, by simpa [hbuilt, Except.toOption] using hkept, ?_⟩
      have hforeign : step tree.toValue "x-node".toList = .error (.missingKey "x-node".toList) :=
        step_tree_of_not_mem (by decide)
      have hparse : parse? (.str "#/x-node") = some ["x-node".toList] := by cbv
      rw [resolve, hparse]
      exact congrArg (· >>= fun next => follow next []) hforeign

end ApiContract.Schema
