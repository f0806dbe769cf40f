import ApiContract.Schema.MediaType

/-!
# Marking properties with their encodings

What is declared for the encoding of a property is read first, and only that can fail; marking the
property with it cannot.
-/

namespace ApiContract.Schema

variable {v : Value} {name encoding : Value} {properties : Entries}

/-- What an encoding declares as its content type; an empty one declares none. -/
def encodingType (encoding : Value) : Except Fault Value :=
  if encoding.truthy then fieldOf encoding "contentType" else .ok .null

/-- The properties with one of them marked, if it is a mapping and a content type is given. -/
def markProperty (properties : Entries) (name contentType : Value) : Entries :=
  match Entries.get? properties name with
  | some (.map property) =>
      if contentType.isNull then properties
      else properties.insert name
        (.map (Entries.setField property "contentMediaType" contentType))
  | _ => properties

theorem stampProperty_eq (properties : Entries) (name encoding : Value) :
    stampProperty properties name encoding =
      (encodingType encoding).map (markProperty properties name) := by
  unfold stampProperty encodingType
  dsimp only
  split
  · cases fieldOf encoding "contentType" with
    | error fault => rfl
    | ok contentType =>
        unfold markProperty
        cases Entries.get? properties name with
        | none => rfl
        | some property =>
            cases property with
            | map fields => exact (apply_ite Except.ok _ _ _).symm
            | _ => rfl
  -- Without a content type no property is marked.
  · unfold markProperty
    cases Entries.get? properties name with
    | none => rfl
    | some property => cases property <;> rfl

theorem asMap?_eq_some_iff {entries : Entries} : v.asMap? = some entries ↔ v = .map entries := by
  cases v <;> simp [Value.asMap?]

theorem eq_map_of_objectProperties? {schema : Value} {es properties : Entries}
    (hobject : objectProperties? schema = some (es, properties)) :
    schema = .map es ∧ Entries.fieldD es "properties" = .map properties := by
  unfold objectProperties? at hobject
  obtain ⟨entries, hentries, hobject⟩ := Option.bind_eq_some_iff.mp hobject
  split at hobject
  · obtain ⟨inner, hinner, hobject⟩ := Option.bind_eq_some_iff.mp hobject
    cases hobject
    exact ⟨asMap?_eq_some_iff.mp hentries, asMap?_eq_some_iff.mp hinner⟩
  · cases hobject

end ApiContract.Schema
