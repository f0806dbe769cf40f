import ApiContract.Proofs.Json.Laws
import ApiContract.Proofs.Schema.Inheritance
import ApiContract.Proofs.Schema.Stamping
import ApiContract.Schema.Request

/-!
# Schemas that can be written

The builders take values from the description and put them into schemas of their own.  If the
description has a JSON text, then so has every schema that is taken from it, and so has every object
schema that is made of schemas with a JSON text.
-/

namespace ApiContract.Schema

variable {v declaration : Value}

/-! ## Schemas that are taken from a description -/

theorem isJson_of_declared {name : String} (hjson : declaration.isJson = true)
    (hread : declared declaration name = .ok v) : v.isJson = true :=
  Value.isJson_of_part? hjson (orMisfit_eq_ok_iff.mp hread)

theorem isJson_of_fieldOf {name : String} (hjson : declaration.isJson = true)
    (hread : fieldOf declaration name = .ok v) : v.isJson = true := by
  rw [← memberIn_of_fieldOf hread]
  exact isJson_inherited.memberIn hjson

theorem isKeyName_of_mem_entriesIn {entry : Value × Value} (hjson : v.isJson = true)
    (hentry : entry ∈ entriesIn v) : (Json.keyName? entry.1).isSome = true := by
  cases v with
  | map es => exact (Value.isJson_map_iff.mp hjson entry hentry).1
  | _ => simp [entriesIn, Value.asMap?] at hentry

theorem isJson_markProperty {properties : Entries} {name contentType : Value}
    (hproperties : (Value.map properties).isJson = true)
    (hname : (Json.keyName? name).isSome = true) (hcontentType : contentType.isJson = true) :
    (Value.map (markProperty properties name contentType)).isJson = true := by
  unfold markProperty
  split
  · rename_i property hproperty
    have hinner := Value.isJson_of_get? hproperties hproperty
    split
    · exact hproperties
    · exact Value.isJson_insert hproperties hname (Value.isJson_insert hinner rfl hcontentType)
  · exact hproperties

theorem isJson_of_encodingType {encoding contentType : Value} (hencoding : encoding.isJson = true)
    (hread : encodingType encoding = .ok contentType) : contentType.isJson = true := by
  unfold encodingType at hread
  split at hread
  · exact isJson_of_fieldOf hencoding hread
  · cases hread
    rfl

theorem isJson_of_stampProperty {properties stamped : Entries} {name encoding : Value}
    (hproperties : (Value.map properties).isJson = true)
    (hname : (Json.keyName? name).isSome = true) (hencoding : encoding.isJson = true)
    (hread : stampProperty properties name encoding = .ok stamped) :
    (Value.map stamped).isJson = true := by
  rw [stampProperty_eq] at hread
  obtain ⟨contentType, hcontentType, rfl⟩ := map_eq_ok_iff.mp hread
  exact isJson_markProperty hproperties hname (isJson_of_encodingType hencoding hcontentType)

theorem isJson_of_stampProperties {properties encodings stamped : Entries}
    (hproperties : (Value.map properties).isJson = true)
    (hencodings : (Value.map encodings).isJson = true)
    (hread : stampProperties properties encodings = .ok stamped) :
    (Value.map stamped).isJson = true := by
  rw [Value.isJson_map_iff] at hencodings
  induction encodings generalizing properties with
  | nil =>
      cases hread
      exact hproperties
  | cons entry rest ih =>
      obtain ⟨hname, hencoding⟩ := hencodings entry List.mem_cons_self
      rw [stampProperties] at hread
      obtain ⟨first, hfirst, hread⟩ := bind_eq_ok_iff.mp hread
      exact ih (isJson_of_stampProperty hproperties hname hencoding hfirst)
        (fun other hother => hencodings other (List.mem_cons_of_mem _ hother)) hread

theorem isJson_of_stamp {schema encodings stamped : Value} (hschema : schema.isJson = true)
    (hencodings : encodings.isJson = true) (hread : stamp schema encodings = .ok stamped) :
    stamped.isJson = true := by
  unfold stamp at hread
  split at hread
  · rename_i es properties hobject
    obtain ⟨rfl, hproperties⟩ := eq_map_of_objectProperties? hobject
    have hproperties : (Value.map properties).isJson = true := by
      rw [← hproperties, ← memberIn_map]
      exact isJson_inherited.memberIn hschema
    split at hread
    · obtain ⟨declared, hdeclared, hread⟩ := bind_eq_ok_iff.mp hread
      obtain ⟨marked, hmarked, hread⟩ := bind_eq_ok_iff.mp hread
      cases hread
      obtain rfl := entriesOf_eq_ok_iff.mp hdeclared
      exact Value.isJson_insert hschema rfl
        (isJson_of_stampProperties hproperties hencodings hmarked)
    · cases hread
      exact hschema
  · cases hread
    exact hschema

theorem isJson_of_schemaFromContent {content field : Value} (hjson : content.isJson = true)
    (hread : schemaFromContent content field = .ok v) : v.isJson = true := by
  unfold schemaFromContent at hread
  obtain ⟨-, hread⟩ := guard_eq_ok_iff.mp hread
  obtain ⟨-, hread⟩ := guard_eq_ok_iff.mp hread
  obtain ⟨elements, -, hread⟩ := bind_eq_ok_iff.mp hread
  obtain ⟨contentType, -, hread⟩ := bind_eq_ok_iff.mp hread
  obtain ⟨media, hmedia, hread⟩ := bind_eq_ok_iff.mp hread
  have hmedia := Value.isJson_of_part? hjson (orMisfit_eq_ok_iff.mp hmedia)
  obtain ⟨-, hread⟩ := guard_eq_ok_iff.mp hread
  obtain ⟨hasSchema, -, hread⟩ := bind_eq_ok_iff.mp hread
  obtain ⟨-, hread⟩ := guard_eq_ok_iff.mp hread
  obtain ⟨schema, hschema, hread⟩ := bind_eq_ok_iff.mp hread
  obtain ⟨encoding, hencoding, hread⟩ := bind_eq_ok_iff.mp hread
  exact isJson_of_stamp (isJson_of_declared hmedia hschema) (isJson_of_fieldOf hmedia hencoding)
    hread

theorem isJson_of_deriveSchema {field : Value} (hjson : declaration.isJson = true)
    (hread : deriveSchema declaration field = .ok v) : v.isJson = true := by
  unfold deriveSchema at hread
  obtain ⟨hasSchema, -, hread⟩ := bind_eq_ok_iff.mp hread
  split at hread
  · exact isJson_of_declared hjson hread
  · obtain ⟨hasContent, -, hread⟩ := bind_eq_ok_iff.mp hread
    split at hread
    · obtain ⟨content, hcontent, hread⟩ := bind_eq_ok_iff.mp hread
      exact isJson_of_schemaFromContent (isJson_of_declared hjson hcontent) hread
    · cases hread

/-! ## Object schemas -/

/-- An object schema that has a JSON text. -/
structure IsJsonObject (o : ObjectNode Node) : Prop where
  properties : ∀ e ∈ o.properties,
    (Json.keyName? e.1).isSome = true ∧ e.2.toValue.isJson = true
  required : ∀ name ∈ o.required, name.isJson = true
  additional : o.additional.isJson = true

theorem isJson_entriesToValues_iff {es : Entries Node} :
    (Value.map (Node.entriesToValues es)).isJson = true ↔
      ∀ e ∈ es, (Json.keyName? e.1).isSome = true ∧ e.2.toValue.isJson = true := by
  rw [Value.isJson_map_iff, Node.entriesToValues_eq_map, List.forall_mem_map]

theorem isJson_object_iff {o : ObjectNode Node} :
    (Node.object o).toValue.isJson = true ↔ IsJsonObject o := by
  rw [Node.toValue, Value.isJson_map_iff]
  simp only [List.forall_mem_cons, List.not_mem_nil, false_imp_iff, implies_true, and_true]
  constructor
  · rintro ⟨-, ⟨-, hproperties⟩, ⟨-, hrequired⟩, -, hadditional⟩
    exact ⟨isJson_entriesToValues_iff.mp hproperties, Value.isJson_list_iff.mp hrequired,
      hadditional⟩
  · intro hjson
    exact ⟨⟨rfl, rfl⟩, ⟨rfl, isJson_entriesToValues_iff.mpr hjson.properties⟩,
      ⟨rfl, Value.isJson_list_iff.mpr hjson.required⟩, rfl, hjson.additional⟩

theorem isJson_choice {branches : List (ObjectNode Node)}
    (hjson : ∀ branch ∈ branches, IsJsonObject branch) : (choice branches).toValue.isJson = true := by
  rw [choice, Node.toValue, Node.toValues_eq_map, Value.isJson_map_iff]
  simp only [List.mem_singleton, forall_eq]
  refine ⟨rfl, Value.isJson_list_iff.mpr fun x hx => ?_⟩
  obtain ⟨node, hnode, rfl⟩ := List.mem_map.mp hx
  obtain ⟨branch, hbranch, rfl⟩ := List.mem_map.mp hnode
  exact isJson_object_iff.mpr (hjson branch hbranch)

namespace IsJsonObject

variable {o : ObjectNode Node} {name : Value} {node : Node}

theorem closed : IsJsonObject .closed := ⟨by simp [ObjectNode.closed], by simp [ObjectNode.closed], rfl⟩

theorem unrestricted : IsJsonObject .unrestricted :=
  ⟨by simp [ObjectNode.unrestricted], by simp [ObjectNode.unrestricted], rfl⟩

theorem set (hjson : IsJsonObject o) (hname : (Json.keyName? name).isSome = true)
    (hnode : node.toValue.isJson = true) : IsJsonObject (o.set name node) where
  properties e he := by
    rcases Entries.mem_of_mem_insert he with hold | ⟨rfl, rfl | hold⟩
    · exact hjson.properties e hold
    · exact ⟨hname, hnode⟩
    · obtain ⟨other, hother, heq⟩ := List.mem_map.mp hold
      exact ⟨heq ▸ (hjson.properties other hother).1, hnode⟩
  required := hjson.required
  additional := hjson.additional

theorem require (hjson : IsJsonObject o) (hname : name.isJson = true) :
    IsJsonObject (o.require name) where
  properties := by
    rw [ObjectNode.properties_require]
    exact hjson.properties
  required := by
    unfold ObjectNode.require
    split
    · exact hjson.required
    · intro other hother
      rcases List.mem_append.mp hother with hold | hnew
      · exact hjson.required other hold
      · rw [List.mem_singleton.mp hnew]
        exact hname
  additional := by
    rw [ObjectNode.additional_require]
    exact hjson.additional

theorem requireAll {names : List Value} (hjson : IsJsonObject o)
    (hnames : ∀ name ∈ names, name.isJson = true) : IsJsonObject (o.requireAll names) :=
  List.foldlRecOn names ObjectNode.require hjson fun _ hbefore name hname =>
    hbefore.require (hnames name hname)

end IsJsonObject

end ApiContract.Schema
