import ApiContract.Proofs.Schema.Lookup
import ApiContract.Proofs.Schema.Stamping
import ApiContract.Proofs.Schema.WellShaped
import ApiContract.Schema.Roots

/-!
# What the builders report

A builder ends in a value, in a failure that it reports as its own, or in a misfit, which is none.
This module follows the builders from the media types up to the roots and shows that on a
well-shaped description every stage ends in one of the first two, as long as the location of every
parameter can stand in a message.

The condition on locations cannot be dropped: the message for an unknown location quotes it, and a
whole number with too many digits cannot be quoted.
-/

namespace ApiContract.Schema

/-- A failure that the builders report as their own. -/
def IsReport (fault : Fault) : Prop := ∃ e : BuildError, e.isTellable = true ∧ fault = .build e

/-- A stage ends in a value or in a failure that is reported. -/
def EndsWell {α : Type} : Except Fault α → Prop
  | .ok _ => True
  | .error fault => IsReport fault

/-! ## Stages in a row -/

section Stages

variable {α β : Type} {x : Except Fault α} {fault : Fault}

theorem isReport_ofBuild {e : BuildError} (htellable : e.isTellable = true) :
    IsReport (.ofBuild e) := by
  refine ⟨e, htellable, ?_⟩
  rw [Fault.ofBuild, if_pos htellable]

/-- What follows a stage has to end well only for the value that the stage gives. -/
theorem EndsWell.andThen {f : α → Except Fault β} (hx : EndsWell x)
    (hf : ∀ a, x = .ok a → EndsWell (f a)) : EndsWell (x >>= f) := by
  cases x with
  | error fault => exact hx
  | ok a => exact hf a rfl

theorem EndsWell.map {f : α → β} (hx : EndsWell x) : EndsWell (x.map f) := by
  cases x with
  | error fault => exact hx
  | ok a => trivial

/-- A stage that is refused under a condition. -/
theorem endsWell_guard {b : Bool} {f : β → Except Fault α} (hfault : b = true → IsReport fault)
    (hrest : b = false → EndsWell x) :
    EndsWell (if b = true then throw fault >>= f else x) := by
  cases b with
  | false => exact hrest rfl
  | true => exact hfault rfl

theorem EndsWell.mapError {f : Fault → Fault} (hx : EndsWell x)
    (hf : ∀ fault, IsReport fault → IsReport (f fault)) : EndsWell (x.mapError f) := by
  cases x with
  | error fault => exact hf fault hx
  | ok a => trivial

/-- A report stays one when the place is filled in. -/
theorem IsReport.locate {key method : String} (hreport : IsReport fault) :
    IsReport (fault.locate (.str key) (.str method)) := by
  obtain ⟨e, htellable, rfl⟩ := hreport
  rw [Fault.locate]
  apply isReport_ofBuild
  simp only [BuildError.isTellable, Bool.and_eq_true] at htellable ⊢
  obtain ⟨⟨hcause, hmethod⟩, hpath⟩ := htellable
  refine ⟨⟨hcause, ?_⟩, ?_⟩
  · simp only [BuildError.locate]
    split
    · simp [Value.asText?]
    · exact hmethod
  · simp only [BuildError.locate]
    split
    · simp [Value.asText?]
    · exact hpath

end Stages

variable {v declaration response document pathItem field : Value} {es : Entries}

theorem entriesIfAny_of_isRecord (hrecord : isRecord v = true) :
    entriesIfAny v = .ok (entriesIn v) := by
  rcases isRecord_iff.mp hrecord with rfl | ⟨entries, rfl⟩
  · rfl
  · cases entries with
    | nil => rfl
    | cons entry rest => rfl

/-! ## Media types, parameters and headers -/

theorem endsWell_encodingType {encoding : Value} (hrecord : isRecord encoding = true) :
    EndsWell (encodingType encoding) := by
  unfold encodingType
  split
  · rename_i htruthy
    obtain ⟨entries, rfl⟩ := exists_map_of_truthy hrecord htruthy
    trivial
  · trivial

theorem endsWell_stampProperty {properties : Entries} {name encoding : Value}
    (hrecord : isRecord encoding = true) : EndsWell (stampProperty properties name encoding) := by
  rw [stampProperty_eq]
  exact (endsWell_encodingType hrecord).map

theorem endsWell_stampProperties {properties encodings : Entries}
    (hrecords : ∀ entry ∈ encodings, isRecord entry.2 = true) :
    EndsWell (stampProperties properties encodings) := by
  induction encodings generalizing properties with
  | nil => trivial
  | cons entry rest ih =>
      rw [stampProperties]
      refine (endsWell_stampProperty (hrecords entry List.mem_cons_self)).andThen fun stamped _ => ?_
      exact ih fun other hother => hrecords other (List.mem_cons_of_mem _ hother)

theorem endsWell_stamp {schema encodings : Value} (hrecord : isRecord encodings = true)
    (hrecords : ∀ entry ∈ entriesIn encodings, isRecord entry.2 = true) :
    EndsWell (stamp schema encodings) := by
  unfold stamp
  split
  · split
    · rename_i htruthy
      obtain ⟨entries, rfl⟩ := exists_map_of_truthy hrecord htruthy
      exact (endsWell_stampProperties hrecords).andThen fun _ _ => trivial
    · trivial
  · trivial

/-- A declaration that has a member can be asked for it. -/
theorem declares_map (es : Entries) (name : String) :
    declares (.map es) name = .ok (es.has (.str name)) := rfl

theorem declared_map {name : String} (hhas : es.has (.str name) = true) :
    declared (.map es) name = .ok (Entries.fieldD es name) := by
  rw [Entries.has_eq_isSome_get?] at hhas
  obtain ⟨w, hw⟩ := Option.isSome_iff_exists.mp hhas
  simp [declared, Value.part?, Value.isKey, hw, orMisfit, Entries.fieldD, Entries.field?]

theorem endsWell_schemaFromContent {content : Value} (htext : content.hasTextKeys = true)
    (hrecord : isRecord content = true)
    (hfirst : (entriesIn content).head?.all (mediaTypeIsShaped ·.2) = true) :
    EndsWell (schemaFromContent content field) := by
  unfold schemaFromContent
  refine endsWell_guard (fun _ => isReport_ofBuild rfl) fun hpresent => ?_
  refine endsWell_guard (fun _ => isReport_ofBuild rfl) fun htruthy => ?_
  obtain ⟨entries, rfl⟩ := exists_map_of_truthy hrecord (by simpa using htruthy)
  cases entries with
  | nil => simp [Value.truthy] at htruthy
  | cons entry rest =>
      obtain ⟨key, media⟩ := entry
      obtain ⟨name, hname⟩ := exists_text_of_mem_entriesIn htext List.mem_cons_self
      obtain rfl : key = .str name := hname
      have hshaped : mediaTypeIsShaped media = true := by simpa using hfirst
      simp only [mediaTypeIsShaped, Bool.and_eq_true, List.all_eq_true] at hshaped
      obtain ⟨⟨hmedia, hencoding⟩, hencodings⟩ := hshaped
      have hpart : (Value.map ((.str name, media) :: rest)).part? (.str name) = some media := by
        simp [Value.part?, Value.isKey, Entries.get?]
      simp only [Value.elements?, Entries.keys, List.map_cons, List.head?_cons, orMisfit, ok_bind,
        hpart]
      refine endsWell_guard (fun _ => isReport_ofBuild rfl) fun hgiven => ?_
      rcases isRecord_iff.mp hmedia with rfl | ⟨fields, rfl⟩
      · simp [Value.isNull] at hgiven
      · simp only [declares_map, ok_bind]
        refine endsWell_guard (fun _ => isReport_ofBuild rfl) fun hschema => ?_
        simp only [declared_map (by simpa using hschema), ok_bind]
        exact endsWell_stamp hencoding hencodings

theorem endsWell_deriveSchema (htext : (Value.map es).hasTextKeys = true)
    (hshaped : declarationIsShaped (.map es) = true) : EndsWell (deriveSchema (.map es) field) := by
  simp only [declarationIsShaped, Bool.and_eq_true, memberIn_map] at hshaped
  obtain ⟨⟨-, hcontent⟩, hfirst⟩ := hshaped
  unfold deriveSchema
  simp only [declares_map, ok_bind]
  split
  · rename_i hschema
    rw [declared_map hschema]
    trivial
  · split
    · rename_i hhas
      have hkeys : (Entries.fieldD es "content").hasTextKeys = true :=
        hasTextKeys_inherited.memberIn (v := .map es) htext
      rw [declared_map hhas, ok_bind]
      exact endsWell_schemaFromContent hkeys hcontent hfirst
    · exact isReport_ofBuild rfl

theorem endsWell_resolveParameter (htext : declaration.hasTextKeys = true)
    (hshaped : declarationIsShaped declaration = true)
    (hquotable : locationIsQuotable declaration = true) :
    EndsWell (resolveParameter declaration) := by
  unfold resolveParameter
  refine endsWell_guard (fun _ => isReport_ofBuild rfl) fun hpresent => ?_
  obtain ⟨entries, rfl⟩ := exists_map_of_declarationIsShaped hshaped hpresent
  simp only [fieldOf_map, ok_bind]
  -- The name and the location are checked before the schema is looked for.
  split
  · simp only [pure_bind]
    split
    · exact (endsWell_deriveSchema htext hshaped).andThen fun _ _ => trivial
    · exact isReport_ofBuild (by simpa [BuildError.isTellable, BuildCause.isTellable,
        locationIsQuotable, Value.truthy] using hquotable)
  · exact isReport_ofBuild rfl

/-- An unknown location that cannot stand in a message is no failure of its own. -/
theorem resolveParameter_of_unquotable (name : String)
    (hname : Entries.fieldD es "name" = .str name)
    (hunknown : ParameterLocation.ofName? (Entries.fieldD es "in") = none)
    (hunquotable : (Entries.fieldD es "in").isQuotable = false) :
    resolveParameter (.map es) = .error .misfit := by
  have huntellable : (BuildError.mk (.unknownLocation name (Entries.fieldD es "in")) .null .null
      (.str "in")).isTellable = false := by
    simp [BuildError.isTellable, BuildCause.isTellable, hunquotable]
  unfold resolveParameter
  simp only [fieldOf_map, ok_bind, hname, hunknown, pure_bind, Fault.ofBuild, huntellable]
  rfl

theorem endsWell_resolveEach {ds : List Value}
    (hall : ∀ d ∈ ds, EndsWell (resolveParameter d)) : EndsWell (resolveEach ds) := by
  induction ds with
  | nil => trivial
  | cons d rest ih =>
      rw [resolveEach]
      refine (hall d List.mem_cons_self).andThen fun _ _ => ?_
      exact (ih fun other hother => hall other (List.mem_cons_of_mem _ hother)).andThen
        fun _ _ => trivial

theorem endsWell_resolveParameters (htext : v.hasTextKeys = true)
    (hshaped : parametersAreShaped v = true)
    (hquotable : ∀ d ∈ declarations v, locationIsQuotable d = true) :
    EndsWell (resolveParameters v) := by
  have heach : ∀ d ∈ declarations v, EndsWell (resolveParameter d) := fun d hd =>
    endsWell_resolveParameter (hasTextKeys_inherited.of_mem_declarations htext hd)
      (List.all_eq_true.mp hshaped d hd) (hquotable d hd)
  cases v with
  | null => trivial
  | list ds => exact endsWell_resolveEach heach
  | pair first second => exact endsWell_resolveEach heach
  | _ => exact isReport_ofBuild rfl

theorem endsWell_resolveHeader {name : String} (htext : declaration.hasTextKeys = true)
    (hshaped : declarationIsShaped declaration = true) :
    EndsWell (resolveHeader (.str name) declaration) := by
  unfold resolveHeader
  refine endsWell_guard (fun _ => isReport_ofBuild rfl) fun _ => ?_
  refine endsWell_guard (fun _ => isReport_ofBuild rfl) fun hpresent => ?_
  obtain ⟨entries, rfl⟩ := exists_map_of_declarationIsShaped hshaped hpresent
  exact (endsWell_deriveSchema htext hshaped).andThen fun _ _ => trivial

theorem endsWell_resolveHeaderEntries {entries : Entries}
    (htext : (Value.map entries).hasTextKeys = true)
    (hshaped : ∀ entry ∈ entries, declarationIsShaped entry.2 = true) :
    EndsWell (resolveHeaderEntries entries) := by
  rw [Value.hasTextKeys_map_iff] at htext
  induction entries with
  | nil => trivial
  | cons entry rest ih =>
      have hrest : EndsWell (resolveHeaderEntries rest) :=
        ih (fun other hother => htext other (List.mem_cons_of_mem _ hother))
          fun other hother => hshaped other (List.mem_cons_of_mem _ hother)
      obtain ⟨⟨name, hname⟩, hkeys⟩ := htext entry List.mem_cons_self
      rw [resolveHeaderEntries]
      split
      · exact hrest
      · rw [hname]
        refine (endsWell_resolveHeader hkeys (hshaped entry List.mem_cons_self)).andThen fun _ _ => ?_
        exact hrest.andThen fun _ _ => trivial

/-! ## Responses and bodies -/

theorem endsWell_variants {entries : Entries} (htext : (Value.map entries).hasTextKeys = true) :
    EndsWell (variants entries) := by
  rw [Value.hasTextKeys_map_iff] at htext
  induction entries with
  | nil => trivial
  | cons entry rest ih =>
      obtain ⟨⟨name, hname⟩, -⟩ := htext entry List.mem_cons_self
      have hfirst : EndsWell (variant? entry.1 entry.2) := by
        rw [hname, variant?.eq_def]
        split
        · split <;> trivial
        · trivial
      rw [variants]
      refine hfirst.andThen fun _ _ => ?_
      exact (ih fun other hother => htext other (List.mem_cons_of_mem _ hother)).andThen
        fun _ _ => trivial

theorem endsWell_resolveContent (htext : response.hasTextKeys = true)
    (hrecord : isRecord response = true) : EndsWell (resolveContent response) := by
  unfold resolveContent
  split
  · trivial
  · rename_i hpresent
    obtain ⟨entries, rfl⟩ := exists_map_of_isRecord hrecord (by simpa using hpresent)
    rw [fieldOf_map, ok_bind]
    have hkeys : (Entries.fieldD entries "content").hasTextKeys = true :=
      hasTextKeys_inherited.memberIn (v := .map entries) htext
    split
    · rename_i es hcontent
      exact (endsWell_variants (hcontent ▸ hkeys)).andThen fun _ _ => trivial
    · trivial

theorem endsWell_resolveResponse {status : Value} (htext : response.hasTextKeys = true)
    (hshaped : responseIsShaped response = true) : EndsWell (resolveResponse status response) := by
  simp only [responseIsShaped, Bool.and_eq_true, List.all_eq_true] at hshaped
  obtain ⟨⟨hrecord, hheaders⟩, hall⟩ := hshaped
  unfold resolveResponse
  refine endsWell_guard (fun _ => isReport_ofBuild rfl) fun hpresent => ?_
  refine EndsWell.andThen ?_ fun _ _ =>
    (endsWell_resolveContent htext hrecord).andThen fun _ _ => trivial
  obtain ⟨entries, rfl⟩ := exists_map_of_isRecord hrecord hpresent
  unfold resolveHeaders
  refine endsWell_guard (fun _ => isReport_ofBuild rfl) fun _ => ?_
  simp only [fieldOf_map, ok_bind, ← memberIn_map, entriesIfAny_of_isRecord hheaders]
  apply endsWell_resolveHeaderEntries ?_ hall
  exact hasTextKeys_entriesIn (hasTextKeys_inherited.memberIn (v := .map entries) htext)

theorem endsWell_resolveResponseEntries {entries : Entries}
    (htext : (Value.map entries).hasTextKeys = true)
    (hshaped : ∀ entry ∈ entries,
      (isExtension entry.1 || responseIsShaped entry.2) = true) :
    EndsWell (resolveResponseEntries entries) := by
  rw [Value.hasTextKeys_map_iff] at htext
  induction entries with
  | nil => trivial
  | cons entry rest ih =>
      have hrest : EndsWell (resolveResponseEntries rest) :=
        ih (fun other hother => htext other (List.mem_cons_of_mem _ hother))
          fun other hother => hshaped other (List.mem_cons_of_mem _ hother)
      rw [resolveResponseEntries]
      split
      · exact hrest
      · rename_i hlisted
        have hextension : isExtension entry.1 = false := by simp_all
        have hresponse : responseIsShaped entry.2 = true := by
          simpa [hextension] using hshaped entry List.mem_cons_self
        refine (endsWell_resolveResponse (htext entry List.mem_cons_self).2 hresponse).andThen
          fun _ _ => ?_
        exact hrest.andThen fun _ _ => trivial

theorem endsWell_resolveResponses (htext : v.hasTextKeys = true) (hrecord : isRecord v = true)
    (hshaped : ∀ entry ∈ entriesIn v, (isExtension entry.1 || responseIsShaped entry.2) = true) :
    EndsWell (resolveResponses v) := by
  unfold resolveResponses
  rw [entriesIfAny_of_isRecord hrecord, ok_bind]
  apply endsWell_resolveResponseEntries ?_ hshaped
  exact hasTextKeys_entriesIn htext

theorem endsWell_resolveBody (htext : v.hasTextKeys = true) (hrecord : isRecord v = true) :
    EndsWell (resolveBody v) := by
  unfold resolveBody
  split
  · trivial
  · rename_i htruthy
    obtain ⟨entries, rfl⟩ := exists_map_of_truthy hrecord (by simpa using htruthy)
    have hkeys : (Entries.fieldD entries "content").hasTextKeys = true :=
      hasTextKeys_inherited.memberIn (v := .map entries) htext
    simp only [fieldOf_map, ok_bind]
    split
    · rename_i es hcontent
      refine (endsWell_variants (hcontent ▸ hkeys)).andThen fun content _ => ?_
      split <;> trivial
    · trivial

end ApiContract.Schema
