import ApiContract.Proofs.Schema.Lookup
import ApiContract.Proofs.Value.Entries
import ApiContract.Schema.Roots

/-!
# The component table

The table of a description has an entry for every declared kind of component that has members, with
one node for each member.  Schemas enter it as they are declared, so whatever a pointer finds among
the schemas of the description it finds in the table.
-/

namespace ApiContract.Schema

variable {document field members : Value} {kind : ComponentKind} {entries : Entries}
  {token : Token}

theorem ComponentKind.eq_str_of_ofName? (hfield : ofName? field = some kind) :
    field = .str kind.name := by
  cases field with
  | str s =>
      rw [ofName?] at hfield
      have hfound := List.find?_some hfield
      rw [beq_iff_eq.mp hfound]
  | _ => simp [ofName?] at hfield

@[simp] theorem ComponentKind.ofName?_name (kind : ComponentKind) :
    ofName? (.str kind.name) = some kind := by
  cases kind <;> rfl

/-! ## Entries of the table -/

/-- The nodes of the members of one kind, in order. -/
def ReadsMembers (kind : ComponentKind) (members : Entries) (nodes : Entries Node) : Prop :=
  List.Forall₂ (fun member node =>
    member.1 = node.1 ∧ componentNode kind member.1 member.2 = .ok node.2) members nodes

theorem readsMembers_of_componentNodes {nodes : Entries Node}
    (hread : componentNodes kind entries = .ok nodes) : ReadsMembers kind entries nodes := by
  induction entries generalizing nodes with
  | nil =>
      cases hread
      exact .nil
  | cons entry rest ih =>
      rw [componentNodes] at hread
      obtain ⟨first, hfirst, hread⟩ := bind_eq_ok_iff.mp hread
      obtain ⟨others, hothers, hread⟩ := bind_eq_ok_iff.mp hread
      cases hread
      exact .cons ⟨rfl, hfirst⟩ (ih hothers)

/-- The schemas of a description are taken as they are. -/
theorem entriesToValues_of_readsMembers {nodes : Entries Node}
    (hreads : ReadsMembers .schemas entries nodes) : Node.entriesToValues nodes = entries := by
  induction hreads with
  | nil => rfl
  | @cons member node _ _ hfirst _ ih =>
      obtain ⟨hkey, hnode⟩ := hfirst
      have hgiven : node.2 = .given member.2 := (Except.ok.inj hnode).symm
      rw [Node.entriesToValues, ih, ← hkey, hgiven, Node.toValue]

/-- What one field of the components contributes to the table: nothing, or the nodes of its
members. -/
theorem tokenEntry_cases (hread : (tokenEntry field members).outcome = .ok token) :
    (token = [] ∧ ∀ kind : ComponentKind, field = .str kind.name → members.truthy = false) ∨
      ∃ (kind : ComponentKind) (declared : Entries) (nodes : Entries Node),
        field = .str kind.name ∧ members = .map declared ∧
        ReadsMembers kind declared nodes ∧ token = [(kind, nodes)] := by
  unfold tokenEntry at hread
  cases hkind : ComponentKind.ofName? field with
  | none =>
      rw [hkind] at hread
      cases hread
      refine Or.inl ⟨rfl, ?_⟩
      rintro kind rfl
      simp at hkind
  | some kind =>
      obtain rfl := ComponentKind.eq_str_of_ofName? hkind
      simp only [hkind] at hread
      split at hread
      · rename_i hfalsy
        cases hread
        exact Or.inl ⟨rfl, fun _ _ => by simpa using hfalsy⟩
      · simp only [Traced.outcome_bind, Traced.outcome_lift, Traced.outcome_note,
          Traced.outcome_pure, bind_eq_ok_iff] at hread
        obtain ⟨nodes, ⟨declared, hdeclared, hnodes⟩, -, -, hread⟩ := hread
        cases hread
        exact Or.inr ⟨kind, declared, nodes, rfl, entriesOf_eq_ok_iff.mp hdeclared,
          readsMembers_of_componentNodes hnodes, rfl⟩

theorem tokenOfEntries_cons_eq_ok_iff {rest : Entries} :
    (tokenOfEntries ((field, members) :: rest)).outcome = .ok token ↔
      ∃ first others, (tokenEntry field members).outcome = .ok first ∧
        (tokenOfEntries rest).outcome = .ok others ∧ token = first ++ others := by
  simp only [tokenOfEntries, Traced.outcome_bind, Traced.outcome_pure, bind_eq_ok_iff]
  constructor
  · rintro ⟨first, hfirst, others, hothers, ⟨⟩⟩
    exact ⟨first, others, hfirst, hothers, rfl⟩
  · rintro ⟨first, others, hfirst, hothers, rfl⟩
    exact ⟨first, hfirst, others, hothers, rfl⟩

/-- Every entry of the table holds the members of a declared kind. -/
theorem exists_declared_of_mem_token {nodes : Entries Node}
    (hread : (tokenOfEntries entries).outcome = .ok token) (hentry : (kind, nodes) ∈ token) :
    ∃ declared, (.str kind.name, .map declared) ∈ entries ∧ ReadsMembers kind declared nodes := by
  induction entries generalizing token with
  | nil =>
      cases hread
      simp at hentry
  | cons entry rest ih =>
      obtain ⟨first, others, hfirst, hothers, rfl⟩ := tokenOfEntries_cons_eq_ok_iff.mp hread
      rcases List.mem_append.mp hentry with hmem | hmem
      · rcases tokenEntry_cases hfirst with ⟨rfl, -⟩ | hone
        · simp at hmem
        · obtain ⟨_, declared, _, hfield, hmembers, hreads, rfl⟩ := hone
          cases List.mem_singleton.mp hmem
          exact ⟨declared, by rw [← hfield, ← hmembers]; exact List.mem_cons_self, hreads⟩
      · obtain ⟨declared, hdeclared, hreads⟩ := ih hothers hmem
        exact ⟨declared, List.mem_cons_of_mem _ hdeclared, hreads⟩

/-- The members of a kind are a mapping, if there are any. -/
theorem exists_map_of_mem (hread : (tokenOfEntries entries).outcome = .ok token)
    (hentry : (.str kind.name, members) ∈ entries) (htruthy : members.truthy = true) :
    ∃ declared, members = .map declared := by
  induction entries generalizing token with
  | nil => simp at hentry
  | cons entry rest ih =>
      obtain ⟨first, others, hfirst, hothers, rfl⟩ := tokenOfEntries_cons_eq_ok_iff.mp hread
      rcases List.mem_cons.mp hentry with rfl | hrest
      · rcases tokenEntry_cases hfirst with ⟨-, hfalsy⟩ | hone
        · simp [hfalsy kind rfl] at htruthy
        · obtain ⟨_, declared, -, -, hmembers, -⟩ := hone
          exact ⟨declared, hmembers⟩
      · exact ih hothers hrest

theorem componentsToken_eq_ok_iff :
    (componentsToken document).outcome = .ok token ↔
      ∃ es entries, document = .map es ∧
        entriesIfAny (Entries.fieldD es "components") = .ok entries ∧
        (tokenOfEntries entries).outcome = .ok token := by
  unfold componentsToken
  cases document with
  | map es =>
      simp [Value.isNull, Traced.outcome_bind, bind_eq_ok_iff]
  | _ => simp [Value.isNull, bind_eq_ok_iff, fieldOf_eq_ok_iff]

/-- A tree carries the component table.  It is empty if its collection is not declared, and has the
listed members otherwise. -/
theorem cases_of_buildTree {collection : Collection} {tree : Tree}
    (hbuilt : (buildTree collection document).outcome = .ok tree) :
    (componentsToken document).outcome = .ok tree.components ∧
      ∃ declared, collectionOf collection document = .ok declared ∧
        (declared.isNull = true ∧ tree.members = .closed ∨
          ∃ listed, items collection document = .ok listed ∧
            (addItems collection document .closed listed).outcome = .ok tree.members) := by
  simp only [buildTree, Traced.outcome_bind, Traced.outcome_lift] at hbuilt
  obtain ⟨token, htoken, hbuilt⟩ := bind_eq_ok_iff.mp hbuilt
  obtain ⟨declared, hdeclared, hbuilt⟩ := bind_eq_ok_iff.mp hbuilt
  split at hbuilt
  · rename_i hnull
    cases hbuilt
    exact ⟨htoken, declared, hdeclared, .inl ⟨hnull, rfl⟩⟩
  · simp only [Traced.outcome_bind, Traced.outcome_lift, Traced.outcome_note,
      Traced.outcome_pure, bind_eq_ok_iff] at hbuilt
    obtain ⟨listed, hlisted, members, hmembers, _, -, hbuilt⟩ := hbuilt
    cases hbuilt
    exact ⟨htoken, declared, hdeclared, .inr ⟨listed, hlisted, hmembers⟩⟩

/-! ## Looking up schemas -/

theorem field?_cons_str (name other : String) {α : Type} (v : α) (es : Entries α) :
    Entries.field? ((.str name, v) :: es) other =
      if name = other then some v else Entries.field? es other := by
  by_cases hname : name = other <;> simp [Entries.field?, Entries.get?, hname]

theorem ComponentKind.name_injective : Function.Injective name := by
  intro left right heq
  cases left <;> cases right <;> simp_all [name]

/-- The table as entries of a mapping. -/
def tableEntries (token : Token) : Entries :=
  token.map fun entry => (.str entry.1.name, .map (Node.entriesToValues entry.2))

theorem Token.toValue_eq (token : Token) : token.toValue = .map (tableEntries token) := rfl

/-- The declared schemas are found in the table as they are. -/
theorem field?_entries_schemas {declared : Entries}
    (hread : (tokenOfEntries entries).outcome = .ok token)
    (hfield : Entries.field? entries ComponentKind.schemas.name = some (.map declared))
    (hsome : declared ≠ []) :
    Entries.field? (tableEntries token) ComponentKind.schemas.name = some (.map declared) := by
  induction entries generalizing token with
  | nil => simp [Entries.field?, Entries.get?] at hfield
  | cons entry rest ih =>
      obtain ⟨field, members⟩ := entry
      obtain ⟨first, others, hfirst, hothers, rfl⟩ := tokenOfEntries_cons_eq_ok_iff.mp hread
      by_cases hschemas : field = .str ComponentKind.schemas.name
      · subst hschemas
        obtain rfl : members = .map declared := by simpa [field?_cons_str] using hfield
        rcases tokenEntry_cases hfirst with ⟨-, hfalsy⟩ | hone
        · have hempty := hfalsy .schemas rfl
          simp [Value.truthy, hsome] at hempty
        · obtain ⟨kind, _, nodes, hkind, hmembers, hreads, rfl⟩ := hone
          obtain rfl := ComponentKind.name_injective (Value.str.inj hkind)
          cases hmembers
          simp [tableEntries, field?_cons_str, entriesToValues_of_readsMembers hreads]
      · have hrest : Entries.field? rest ComponentKind.schemas.name = some (.map declared) := by
          have hother : field.same (.str ComponentKind.schemas.name) = false :=
            Bool.eq_false_iff.mpr fun hsame => hschemas (Value.eq_str_of_same hsame)
          simpa [Entries.field?, Entries.get?, hother] using hfield
        have hfound := ih hothers hrest
        rcases tokenEntry_cases hfirst with ⟨rfl, -⟩ | hone
        · exact hfound
        · obtain ⟨kind, _, nodes, rfl, -, -, rfl⟩ := hone
          have hother : kind.name ≠ ComponentKind.schemas.name := fun heq => hschemas (by rw [heq])
          simpa [tableEntries, field?_cons_str, hother] using hfound

end ApiContract.Schema
