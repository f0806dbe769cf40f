import ApiContract.Proofs.Schema.Reporting
import ApiContract.Proofs.Value.Document
import ApiContract.Proofs.Value.Update

/-!
# What encodings mark

The encodings of a media type are gone through one after another, each of them marking the property
of its name.  Taken together they mark every property at once: a property gets the content type that
is declared under its own name, and all else stays what and where it is.  So the order of the
encodings does not matter, and neither does any media type after the first.
-/

namespace ApiContract

namespace Value

theorem same_comm_of_isKey {a b : Value} (ha : a.isKey = true) (hb : b.isKey = true) :
    a.same b = b.same a := by
  rw [Bool.eq_iff_iff, same_iff_keyForm ha hb, same_iff_keyForm hb ha]
  exact eq_comm

end Value

namespace Schema

variable {encodings reordered properties es : Entries} {name contentType schema content v : Value}

/-! ## Marks -/

/-- The content type that encodings declare under a name, null when they declare none. -/
def declaredType (encodings : Entries) (name : Value) : Value :=
  memberIn ((Entries.get? encodings name).getD .null) "contentType"

/-- A schema with its content type marked.  Only a mapping can be marked, and only with a content
type that is not null. -/
def mark (contentType : Value) : Value → Value
  | .map fields =>
      if contentType.isNull then .map fields
      else .map (Entries.setField fields "contentMediaType" contentType)
  | schema => schema

/-- Properties with the content type marked that is declared under the name of each. -/
def markedProperties (encodings properties : Entries) : Entries :=
  properties.map fun entry => (entry.1, mark (declaredType encodings entry.1) entry.2)

/-- A schema that says it describes an object, and has a mapping of properties. -/
structure DescribesObject (schema : Value) (es properties : Entries) : Prop where
  isMap : schema = .map es
  type : Entries.field? es "type" = some (.str "object")
  properties : Entries.field? es "properties" = some (.map properties)

/-- A schema that differs from another one in nothing but what its encodings mark. -/
structure IsMarked (encodings : Entries) (schema marked : Value) : Prop where
  object : ∀ es properties, DescribesObject schema es properties →
    marked = .map (Entries.update es "properties" fun _ => .map (markedProperties encodings properties))
  other : (¬ ∃ es properties, DescribesObject schema es properties) → marked = schema

theorem mark_null (schema : Value) : mark .null schema = schema := by
  cases schema <;> rfl

theorem markedProperties_nil (properties : Entries) : markedProperties [] properties = properties :=
  (List.map_congr_left fun entry _ => congrArg (entry.1, ·) (mark_null entry.2)).trans
    (List.map_id properties)

/-! ## One encoding after another -/

theorem encodingType_of_isRecord (hrecord : isRecord v = true) :
    encodingType v = .ok (memberIn v "contentType") := by
  rcases isRecord_iff.mp hrecord with rfl | ⟨entries, rfl⟩
  · rfl
  · cases entries <;> rfl

/-- One encoding marks the property of its name, where it stands. -/
theorem markProperty_eq_updateAt (htable : properties.IsTable) (hname : name.isKey = true) :
    markProperty properties name contentType = properties.updateAt name (mark contentType) := by
  unfold markProperty
  split
  · rename_i fields hfields
    split
    · rename_i hnull
      refine (htable.updateAt_eq_self hname fun v hv => ?_).symm
      rw [hfields] at hv
      obtain rfl := Option.some.inj hv
      rw [mark, if_pos hnull]
    · rename_i hgiven
      rw [← htable.insert_eq_updateAt hname hfields (mark contentType), mark, if_neg hgiven]
  · rename_i hnomap
    refine (htable.updateAt_eq_self hname fun v hv => ?_).symm
    cases v with
    | map fields => exact absurd hv (hnomap fields)
    | _ => rfl

theorem declaredType_cons (encoding : Value × Value) (rest : Entries) (name : Value) :
    declaredType (encoding :: rest) name =
      if encoding.1.same name = true then memberIn encoding.2 "contentType"
      else declaredType rest name := by
  rw [declaredType, Entries.get?_cons]
  split <;> rfl

theorem declaredType_eq_null (hother : ∀ encoding ∈ encodings, encoding.1.same name = false) :
    declaredType encodings name = .null := by
  have hfind : Entries.get? encodings name = none := by
    rw [Entries.get?, List.find?_eq_none.mpr fun encoding hmem => by simp [hother encoding hmem]]
    rfl
  rw [declaredType, hfind]
  rfl

/-- The encodings one after another mark each property with what is declared under its name.  The
induction is on the encodings: the names are distinct, so none of those that follow marks a property
again. -/
theorem stampProperties_eq (hencodings : encodings.IsTable)
    (hrecords : ∀ encoding ∈ encodings, isRecord encoding.2 = true) (htable : properties.IsTable) :
    stampProperties properties encodings = .ok (markedProperties encodings properties) := by
  induction encodings generalizing properties with
  | nil =>
      rw [markedProperties_nil]
      rfl
  | cons encoding rest ih =>
      obtain ⟨hkey, -, hrest⟩ := Entries.isTable_cons_iff.mp hencodings
      obtain ⟨hrecord, hrecords⟩ := List.forall_mem_cons.mp hrecords
      have hkeys := Entries.keys_updateAt properties encoding.1
        (mark (memberIn encoding.2 "contentType"))
      rw [stampProperties, stampProperty_eq, encodingType_of_isRecord hrecord, Except.map,
        markProperty_eq_updateAt htable hkey, ok_bind, ih hrest hrecords (htable.of_keys hkeys),
        markedProperties, Entries.updateAt, List.map_map]
      refine congrArg Except.ok (List.map_congr_left fun entry hentry => ?_)
      have hentryKey := htable.areKeys entry hentry
      rw [Function.comp_apply, declaredType_cons, Value.same_comm_of_isKey hkey hentryKey]
      split
      · rename_i hsame
        have hlater : declaredType rest entry.1 = .null :=
          declaredType_eq_null (hencodings.tail_ne_same hentryKey
            ((Value.same_comm_of_isKey hkey hentryKey).trans hsame))
        rw [hlater, mark_null]
      · rfl

/-! ## The schema of a content map -/

/-- The encodings of a media type: none where what is declared is empty, and otherwise a mapping
whose members are mappings or null. -/
inductive DeclaresEncodings : Value → Entries → Prop
  | absent {declared : Value} (hempty : declared.truthy = false) : DeclaresEncodings declared []
  | entries {encodings : Entries}
      (hrecords : ∀ encoding ∈ encodings, isRecord encoding.2 = true) :
      DeclaresEncodings (.map encodings) encodings

/-- A content map whose first media type is a mapping with a schema and with encodings. -/
inductive DeclaresContent : Value → Value → Entries → Prop
  | first {name schema : Value} {media later encodings : Entries}
      (hdocument : (Value.map ((name, .map media) :: later)).IsDocument)
      (hschema : Entries.field? media "schema" = some schema)
      (hencodings : DeclaresEncodings (Entries.fieldD media "encoding") encodings) :
      DeclaresContent (.map ((name, .map media) :: later)) schema encodings

/-- A member that is read as something else than null is declared. -/
theorem fieldD_eq_iff_field? {key : String} (hpresent : v ≠ .null) :
    Entries.fieldD es key = v ↔ Entries.field? es key = some v := by
  rw [Entries.fieldD]
  cases Entries.field? es key with
  | none => simpa using hpresent.symm
  | some w => simp

theorem objectProperties?_eq_some_iff :
    objectProperties? schema = some (es, properties) ↔ DescribesObject schema es properties := by
  have htype {entries : Entries} : (Entries.fieldD entries "type").same (.str "object") = true ↔
      Entries.field? entries "type" = some (.str "object") := by
    rw [Value.same_str_iff, fieldD_eq_iff_field? (by simp)]
  constructor
  · intro hobject
    obtain ⟨rfl, hproperties⟩ := eq_map_of_objectProperties? hobject
    refine ⟨rfl, htype.mp ?_, (fieldD_eq_iff_field? (by simp)).mp hproperties⟩
    by_contra hother
    simp [objectProperties?, Value.asMap?, hother] at hobject
  · rintro ⟨rfl, hobject, hproperties⟩
    have hinner := (fieldD_eq_iff_field? (by simp)).mpr hproperties
    simp [objectProperties?, Value.asMap?, htype.mpr hobject, hinner]

theorem DescribesObject.isMarked (hobject : DescribesObject schema es properties) :
    IsMarked encodings schema
      (.map (Entries.update es "properties" fun _ => .map (markedProperties encodings properties)))
    where
  object entries inner hdescribes := by
    obtain ⟨hentries, -, hinner⟩ := hdescribes
    obtain rfl := Value.map.inj (hobject.isMap.symm.trans hentries)
    obtain rfl := Value.map.inj (Option.some.inj (hobject.properties.symm.trans hinner))
    rfl
  other hno := absurd ⟨es, properties, hobject⟩ hno

/-- The parts of a document that describes an object. -/
theorem DescribesObject.isTable (hobject : DescribesObject schema es properties)
    (hschema : schema.IsDocument) : es.IsTable ∧ properties.IsTable := by
  rw [hobject.isMap, Value.isDocument_map_iff] at hschema
  obtain ⟨htable, hvalues⟩ := hschema
  have hproperties := hvalues _ (Entries.mem_of_field? hobject.properties)
  exact ⟨htable, (Value.isDocument_map_iff.mp hproperties).1⟩

/-- A schema is stamped with all encodings that are declared, and with nothing else. -/
theorem isMarked_stamp {declared : Value} (hschema : schema.IsDocument)
    (hdeclared : declared.IsDocument) (hencodings : DeclaresEncodings declared encodings) :
    ∃ marked, stamp schema declared = .ok marked ∧ IsMarked encodings schema marked := by
  unfold stamp
  split
  · rename_i es properties hfound
    have hobject := objectProperties?_eq_some_iff.mp hfound
    obtain ⟨htable, hproperties⟩ := hobject.isTable hschema
    refine ⟨_, ?_, hobject.isMarked⟩
    split
    · rename_i htruthy
      cases hencodings with
      | absent hempty => simp [hempty] at htruthy
      | entries hrecords =>
          have hall := (Value.isDocument_map_iff.mp hdeclared).1
          have hput := htable.insert_eq_update hobject.properties
            fun _ => .map (markedProperties encodings properties)
          rw [entriesOf, Value.asMap?, orMisfit, ok_bind, stampProperties_eq hall hrecords hproperties,
            ok_bind, Entries.setField, hput]
    · rename_i hfalsy
      -- An empty mapping declares no encodings either.
      obtain rfl : encodings = [] := by
        cases hencodings with
        | absent hempty => rfl
        | entries hrecords => simpa [Value.truthy] using hfalsy
      have hkept : Entries.update es "properties" (fun _ => .map properties) = es :=
        htable.update_eq_self hobject.properties rfl
      rw [markedProperties_nil, hkept, hobject.isMap]
  · rename_i hnone
    refine ⟨schema, rfl, fun es properties hobject => ?_, fun _ => rfl⟩
    rw [objectProperties?_eq_some_iff.mpr hobject] at hnone
    cases hnone

/-- The schema of a content map is that of its first media type, stamped with its encodings. -/
theorem schemaFromContent_cons {media later : Entries} {field : Value} (hname : name.isKey = true)
    (hschema : Entries.field? media "schema" = some schema) :
    schemaFromContent (.map ((name, .map media) :: later)) field =
      stamp schema (Entries.fieldD media "encoding") := by
  have hpart : (Value.map ((name, .map media) :: later)).part? name = some (.map media) := by
    simp [Value.part?, hname, Entries.get?, Value.same_self_of_isKey hname]
  have hhas : Entries.has media (.str "schema") = true :=
    Entries.has_str_eq_true_iff_field?.mpr ⟨schema, hschema⟩
  have hread : Entries.fieldD media "schema" = schema := by
    rw [Entries.fieldD, hschema]
    rfl
  have hdeclared : declared (.map media) "schema" = .ok schema := hread ▸ declared_map hhas
  unfold schemaFromContent
  simp only [Value.isNull, Value.truthy, List.isEmpty_cons, Bool.not_false, Bool.not_true,
    Bool.false_eq_true, if_false, Value.elements?, Entries.keys, List.map_cons, List.head?_cons,
    orMisfit, ok_bind, hpart, declares_map, hhas, hdeclared, fieldOf_map]

/-- What encodings mark does not depend on their order, and neither does anything else of what comes
of a schema. -/
theorem IsMarked.eq_of_perm {left right : Value} (hschema : schema.IsDocument)
    (hencodings : encodings.IsTable) (hreordered : reordered.IsTable)
    (hperm : reordered.Perm encodings) (hleft : IsMarked reordered schema left)
    (hright : IsMarked encodings schema right) : left = right := by
  by_cases hobject : ∃ es properties, DescribesObject schema es properties
  · obtain ⟨es, properties, hobject⟩ := hobject
    have htypes : markedProperties reordered properties = markedProperties encodings properties := by
      refine List.map_congr_left fun entry hentry => ?_
      have hkey := (hobject.isTable hschema).2.areKeys entry hentry
      rw [declaredType, declaredType, hencodings.get?_perm hreordered hperm hkey]
    rw [hleft.object es properties hobject, hright.object es properties hobject, htypes]
  · rw [hleft.other hobject, hright.other hobject]

theorem DeclaresEncodings.isTable {declared : Value} (hencodings : DeclaresEncodings declared encodings)
    (hdeclared : declared.IsDocument) : encodings.IsTable := by
  cases hencodings with
  | absent => exact Entries.isTable_nil
  | entries => exact (Value.isDocument_map_iff.mp hdeclared).1

/-- The schema and the encodings of a content map that is a document. -/
theorem DeclaresContent.isDocument (hcontent : DeclaresContent content schema encodings) :
    schema.IsDocument ∧ encodings.IsTable := by
  cases hcontent with
  | first hdocument hschema hencodings =>
      have hmedia := (Value.isDocument_map_iff.mp hdocument).2 _ List.mem_cons_self
      have hvalues := (Value.isDocument_map_iff.mp hmedia).2
      refine ⟨hvalues _ (Entries.mem_of_field? hschema), hencodings.isTable ?_⟩
      exact isDocument_inherited.memberIn hmedia

theorem DeclaresContent.exists_isMarked (hcontent : DeclaresContent content schema encodings)
    (field : Value) :
    ∃ marked, schemaFromContent content field = .ok marked ∧ IsMarked encodings schema marked := by
  obtain ⟨hdocument, -⟩ := hcontent.isDocument
  cases hcontent with
  | first hcontent hschema hencodings =>
      obtain ⟨htable, hvalues⟩ := Value.isDocument_map_iff.mp hcontent
      have hmedia := hvalues _ List.mem_cons_self
      rw [schemaFromContent_cons (htable.areKeys _ List.mem_cons_self) hschema]
      exact isMarked_stamp hdocument (isDocument_inherited.memberIn hmedia) hencodings

/-- The properties of a form: a picture, tags, a remark of any kind and a name. -/
def formProperties (picture tags : Entries) : Entries :=
  [(.str "picture", .map picture), (.str "tags", .map tags), (.str "remark", .bool true),
    (.str "name", .map [(.str "type", .str "string")])]

def formSchema (picture tags : Entries) : Value :=
  .map [(.str "type", .str "object"), (.str "properties", .map (formProperties picture tags)),
    (.str "required", .list [.str "picture"])]

/-- A form as it is declared, with tags that are marked already. -/
def plainForm : Value :=
  formSchema [(.str "type", .str "string")]
    [(.str "contentMediaType", .str "text/csv"), (.str "type", .str "array")]

def formEncodings : Entries :=
  [(.str "tags", .map [(.str "contentType", .str "application/json")]), (.str "name", .null),
    (.str "remark", .map [(.str "contentType", .str "text/plain")]),
    (.str "picture", .map [(.str "contentType", .str "image/png")]),
    (.str "sound", .map [(.str "contentType", .str "audio/ogg")])]

/-- A content map for the form. -/
def formContent (encodings later : Entries) : Value :=
  .map ((.str "multipart/form-data",
    .map [(.str "schema", plainForm), (.str "encoding", .map encodings)]) :: later)

theorem declaresContent_formContent {later : Entries}
    (hdocument : (formContent encodings later).IsDocument)
    (hrecords : ∀ encoding ∈ encodings, isRecord encoding.2 = true) :
    DeclaresContent (formContent encodings later) plainForm encodings := by
  refine .first hdocument (by simp [Entries.field?, Entries.get?]) ?_
  have hencoding : Entries.fieldD [(.str "schema", plainForm), (.str "encoding", .map encodings)]
      "encoding" = .map encodings := by
    simp [Entries.fieldD, Entries.field?, Entries.get?]
  rw [hencoding]
  exact .entries hrecords

end Schema

end ApiContract
