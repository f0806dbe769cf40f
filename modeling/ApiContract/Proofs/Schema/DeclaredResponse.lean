import ApiContract.Proofs.Schema.Success
import ApiContract.Schema.Response

/-!
# What a response declares

A response of a description declares headers and media types.  A header that is null and a media
type without a schema are passed over; what is left is read entry by entry.  The statements here
say that a resolved response holds what the description declares: no more, no less, in order.
-/

namespace ApiContract.Schema

variable {response : Value}

/-- The headers that a response declares. -/
def declaredHeaders (response : Value) : Entries :=
  (entriesIn (Entries.fieldD (entriesIn response) "headers")).filter (!·.2.isNull)

/-- The schema of a media type, if it has one. -/
def mediaSchema? (media : Value) : Option Value :=
  Entries.field? (entriesIn media) "schema"

/-- The media types of a content map that have a schema, each with its schema. -/
def usableMedia (content : Entries) : Entries :=
  content.filterMap fun e => (mediaSchema? e.2).map (e.1, ·)

/-- The media types with a schema that a response declares, each with its schema. -/
def declaredMedia (response : Value) : Entries :=
  usableMedia (entriesIn (Entries.fieldD (entriesIn response) "content"))

/-- The responses that are declared under a status. -/
def declaredResponses (responses : Entries) : Entries :=
  responses.filter fun e => !(e.2.isNull || isExtension e.1)

/-- A header as an entry declares it. -/
structure ReadsHeader (entry : Value × Value) (h : Header) : Prop where
  name : nameOf entry.1 = .ok h.name
  schema : deriveSchema entry.2 (.str s!"header '{entry.1.shown}'") = .ok h.schema
  required : ∃ flag, fieldOf entry.2 "required" = .ok flag ∧ flag.truthy = h.required

/-- A variant as a media type with a schema declares it. -/
structure ReadsVariant (entry : Value × Value) (variant : ContentVariant) : Prop where
  contentType : nameOf entry.1 = .ok variant.contentType
  schema : entry.2 = variant.schema

def DeclaresHeader (response : Value) (h : Header) : Prop :=
  ∃ entry ∈ declaredHeaders response, ReadsHeader entry h

def DeclaresVariant (response : Value) (variant : ContentVariant) : Prop :=
  ∃ entry ∈ declaredMedia response, ReadsVariant entry variant

theorem readsHeader_of_resolveHeader {name declaration : Value} {h : Header}
    (hread : resolveHeader name declaration = .ok h) : ReadsHeader (name, declaration) h := by
  unfold resolveHeader at hread
  cases hname : name.isNull with
  | true => simp [hname, bind_eq_ok_iff] at hread
  | false =>
      cases hdeclaration : declaration.isNull with
      | true => simp [hname, hdeclaration, bind_eq_ok_iff] at hread
      | false =>
          simp only [hname, hdeclaration] at hread
          obtain ⟨schema, hschema, hread⟩ := bind_eq_ok_iff.mp hread
          obtain ⟨flag, hflag, hread⟩ := bind_eq_ok_iff.mp hread
          obtain ⟨text, htext, hread⟩ := bind_eq_ok_iff.mp hread
          cases hread
          exact ⟨htext, hschema, flag, hflag, rfl⟩

theorem readsHeaders_of_resolveHeaderEntries {entries : Entries} {hs : List Header}
    (hread : resolveHeaderEntries entries = .ok hs) :
    List.Forall₂ ReadsHeader (entries.filter (!·.2.isNull)) hs := by
  induction entries generalizing hs with
  | nil =>
      cases hread
      exact .nil
  | cons entry rest ih =>
      obtain ⟨name, declaration⟩ := entry
      rw [resolveHeaderEntries] at hread
      split at hread
      · rename_i hnull
        rw [List.filter_cons_of_neg (by simpa using hnull)]
        exact ih hread
      · rename_i hnull
        obtain ⟨first, hfirst, hread⟩ := bind_eq_ok_iff.mp hread
        obtain ⟨others, hothers, hread⟩ := bind_eq_ok_iff.mp hread
        cases hread
        rw [List.filter_cons_of_pos (by simpa using hnull)]
        exact .cons (readsHeader_of_resolveHeader hfirst) (ih hothers)

theorem exists_map_of_resolveHeaders {hs : List Header}
    (hread : resolveHeaders response = .ok hs) : ∃ fields, response = .map fields := by
  unfold resolveHeaders at hread
  cases hnull : response.isNull with
  | true => simp [hnull, bind_eq_ok_iff] at hread
  | false =>
      simp only [hnull] at hread
      obtain ⟨field, hfield, -⟩ := bind_eq_ok_iff.mp hread
      obtain ⟨fields, hfields, -⟩ := fieldOf_eq_ok_iff.mp hfield
      exact ⟨fields, hfields⟩

theorem readsHeaders_of_resolveHeaders {hs : List Header}
    (hread : resolveHeaders response = .ok hs) :
    List.Forall₂ ReadsHeader (declaredHeaders response) hs := by
  obtain ⟨fields, rfl⟩ := exists_map_of_resolveHeaders hread
  obtain ⟨field, hfield, hread⟩ := bind_eq_ok_iff.mp hread
  obtain ⟨_, ⟨⟩, rfl⟩ := fieldOf_eq_ok_iff.mp hfield
  obtain ⟨entries, hentries, hread⟩ := bind_eq_ok_iff.mp hread
  have hheaders := entriesIn_of_entriesIfAny hentries
  have hall := readsHeaders_of_resolveHeaderEntries hread
  rwa [← hheaders] at hall

/-! ## Media types -/

theorem variant?_eq (contentType media : Value) :
    variant? contentType media = match mediaSchema? media with
      | some schema => (nameOf contentType).map fun name => some ⟨name, schema⟩
      | none => .ok none := by
  cases media <;> rfl

theorem readsVariants_of_variants {entries : Entries} {found : List ContentVariant}
    (hread : variants entries = .ok found) :
    List.Forall₂ ReadsVariant (usableMedia entries) found := by
  induction entries generalizing found with
  | nil =>
      cases hread
      exact .nil
  | cons entry rest ih =>
      obtain ⟨contentType, media⟩ := entry
      rw [variants] at hread
      obtain ⟨first, hfirst, hread⟩ := bind_eq_ok_iff.mp hread
      obtain ⟨others, hothers, hread⟩ := bind_eq_ok_iff.mp hread
      cases hread
      rw [variant?_eq] at hfirst
      rw [usableMedia, List.filterMap_cons]
      cases hschema : mediaSchema? media with
      | none =>
          rw [hschema] at hfirst
          cases hfirst
          exact ih hothers
      | some schema =>
          rw [hschema] at hfirst
          obtain ⟨name, hname, hfirst⟩ := map_eq_ok_iff.mp hfirst
          cases hfirst
          exact .cons ⟨hname, rfl⟩ (ih hothers)

/-- The variants of a response; one without content has none. -/
def Response.variants (r : Response) : List ContentVariant :=
  r.content.getD []

theorem readsVariants_of_resolveContent {fields : Entries} {content : Option (List ContentVariant)}
    (hread : resolveContent (.map fields) = .ok content) :
    List.Forall₂ ReadsVariant (declaredMedia (.map fields)) (content.getD []) := by
  obtain ⟨field, hfield, hread⟩ := bind_eq_ok_iff.mp hread
  obtain ⟨_, ⟨⟩, rfl⟩ := fieldOf_eq_ok_iff.mp hfield
  change List.Forall₂ ReadsVariant
    (usableMedia (entriesIn (Entries.fieldD fields "content"))) (content.getD [])
  split at hread
  · rename_i entries hentries
    obtain ⟨found, hfound, hread⟩ := bind_eq_ok_iff.mp hread
    have hall := readsVariants_of_variants hfound
    rw [hentries]
    cases found with
    | nil =>
        cases hread
        exact hall
    | cons first others =>
        cases hread
        exact hall
  · rename_i hother
    cases hread
    have hnone : (Entries.fieldD fields "content").asMap? = none := by
      cases hcontent : Entries.fieldD fields "content" with
      | map entries => exact absurd hcontent (hother entries)
      | _ => rfl
    rw [entriesIn, hnone]
    exact .nil

/-! ## Responses -/

/-- A response as an entry declares it. -/
structure ReadsResponse (entry : Value × Value) (r : Response) : Prop where
  status : r.status = some entry.1.shown
  headers : List.Forall₂ ReadsHeader (declaredHeaders entry.2) r.headers
  variants : List.Forall₂ ReadsVariant (declaredMedia entry.2) r.variants

theorem ReadsHeader.unique {entry : Value × Value} {left right : Header}
    (hleft : ReadsHeader entry left) (hright : ReadsHeader entry right) : left = right := by
  obtain ⟨leftFlag, hleftFlag, hleftRequired⟩ := hleft.required
  obtain ⟨rightFlag, hrightFlag, hrightRequired⟩ := hright.required
  have hname : left.name = right.name := Except.ok.inj (hleft.name.symm.trans hright.name)
  have hschema : left.schema = right.schema :=
    Except.ok.inj (hleft.schema.symm.trans hright.schema)
  have hflag : leftFlag = rightFlag := Except.ok.inj (hleftFlag.symm.trans hrightFlag)
  have hrequired : left.required = right.required := by
    rw [← hleftRequired, hflag, hrightRequired]
  cases left
  cases right
  simp_all

theorem ReadsVariant.unique {entry : Value × Value} {left right : ContentVariant}
    (hleft : ReadsVariant entry left) (hright : ReadsVariant entry right) : left = right := by
  have hcontentType : left.contentType = right.contentType :=
    Except.ok.inj (hleft.contentType.symm.trans hright.contentType)
  have hschema : left.schema = right.schema := hleft.schema.symm.trans hright.schema
  cases left
  cases right
  simp_all

namespace ReadsResponse

variable {entry : Value × Value} {r : Response}

theorem mem_headers_iff (hreads : ReadsResponse entry r) {h : Header} :
    h ∈ r.headers ↔ DeclaresHeader entry.2 h := by
  constructor
  · exact exists_of_mem_right hreads.headers
  · intro hdeclares
    obtain ⟨declaration, hdeclaration, hh⟩ := hdeclares
    obtain ⟨other, hother, hreadsOther⟩ := exists_of_mem_left hreads.headers hdeclaration
    rwa [hh.unique hreadsOther]

theorem mem_variants_iff (hreads : ReadsResponse entry r) {variant : ContentVariant} :
    variant ∈ r.variants ↔ DeclaresVariant entry.2 variant := by
  constructor
  · exact exists_of_mem_right hreads.variants
  · intro hdeclares
    obtain ⟨media, hmedia, hvariant⟩ := hdeclares
    obtain ⟨other, hother, hreadsOther⟩ := exists_of_mem_left hreads.variants hmedia
    rwa [hvariant.unique hreadsOther]

end ReadsResponse

/-- What a response is read from, whatever its status. -/
theorem reads_of_resolveResponse {status : Value} {r : Response}
    (hread : resolveResponse status response = .ok r) :
    r.status = (if status.isNull then none else some status.shown) ∧
      List.Forall₂ ReadsHeader (declaredHeaders response) r.headers ∧
        List.Forall₂ ReadsVariant (declaredMedia response) r.variants := by
  unfold resolveResponse at hread
  cases hnull : response.isNull with
  | true => simp [hnull, bind_eq_ok_iff] at hread
  | false =>
      simp only [hnull] at hread
      obtain ⟨headers, hheaders, hread⟩ := bind_eq_ok_iff.mp hread
      obtain ⟨content, hcontent, hread⟩ := bind_eq_ok_iff.mp hread
      cases hread
      obtain ⟨fields, rfl⟩ := exists_map_of_resolveHeaders hheaders
      exact ⟨rfl, readsHeaders_of_resolveHeaders hheaders,
        readsVariants_of_resolveContent hcontent⟩

theorem readsResponse_of_resolveResponse {status : Value} {r : Response}
    (hread : resolveResponse (.str status.shown) response = .ok r) :
    ReadsResponse (status, response) r := by
  obtain ⟨hstatus, hheaders, hvariants⟩ := reads_of_resolveResponse hread
  exact ⟨hstatus, hheaders, hvariants⟩

theorem readsResponses_of_resolveResponseEntries {entries : Entries} {responses : List Response}
    (hread : resolveResponseEntries entries = .ok responses) :
    List.Forall₂ ReadsResponse (declaredResponses entries) responses := by
  induction entries generalizing responses with
  | nil =>
      cases hread
      exact .nil
  | cons entry rest ih =>
      obtain ⟨status, response⟩ := entry
      rw [resolveResponseEntries] at hread
      split at hread
      · rename_i hskipped
        rw [declaredResponses, List.filter_cons_of_neg (by simp [hskipped])]
        exact ih hread
      · rename_i hdeclared
        obtain ⟨first, hfirst, hread⟩ := bind_eq_ok_iff.mp hread
        obtain ⟨others, hothers, hread⟩ := bind_eq_ok_iff.mp hread
        cases hread
        rw [declaredResponses, List.filter_cons_of_pos (by simpa using hdeclared)]
        exact .cons (readsResponse_of_resolveResponse hfirst) (ih hothers)

/-- Reading the responses of an operation gives what each of them declares, in order. -/
theorem readsResponses_of_resolveResponses {declared : Value} {responses : List Response}
    (hread : resolveResponses declared = .ok responses) :
    List.Forall₂ ReadsResponse (declaredResponses (entriesIn declared)) responses := by
  obtain ⟨entries, hentries, hread⟩ := bind_eq_ok_iff.mp hread
  rw [entriesIn_of_entriesIfAny hentries]
  exact readsResponses_of_resolveResponseEntries hread

end ApiContract.Schema
