import ApiContract.Proofs.Schema.DeclaredResponse
import ApiContract.Proofs.Schema.Naming

/-!
# Branches of a response

The branches that a resolved response contributes are records: the status is pinned, the headers
conform to a bucket that admits further names, and the body has the schema of its variant.  The
theorems say what a branch accepts in terms of the headers and the variant alone.
-/

namespace ApiContract.Schema

variable {admits : Value → Value → Bool} {fields headers : Entries}

/-! ## The bucket of headers -/

/-- The bucket of the declared headers. -/
def headerBucket (hs : List Header) : ObjectNode Node :=
  hs.foldl addHeader .unrestricted

/-- The property of a bucket that a header becomes. -/
def Header.property (h : Header) : Value × Node :=
  (.str h.name, .given h.schema)

theorem properties_headerBucket {hs : List Header} (hnames : (hs.map (·.name)).Nodup) :
    (headerBucket hs).properties = hs.map Header.property :=
  names_addHeader.properties_foldl hnames fun _ _ => List.not_mem_nil

theorem mem_required_headerBucket_iff {hs : List Header} {name : Value} :
    name ∈ (headerBucket hs).required ↔ ∃ h ∈ hs, h.required = true ∧ name = .str h.name := by
  rw [headerBucket, names_addHeader.mem_required_foldl_iff]
  simp [ObjectNode.unrestricted]

/-- What declared headers say of the headers of a message. -/
structure HoldsHeaders (admits : Value → Value → Bool) (declares : Header → Prop)
    (headers : Entries) : Prop where
  admitted : ∀ h, declares h → ∀ v,
    Entries.field? headers h.name = some v → admits h.schema v = true
  present : ∀ h, declares h → h.required = true → Entries.has headers (.str h.name) = true

theorem conforms_headerBucket_iff {hs : List Header} (hnames : (hs.map (·.name)).Nodup) :
    Conforms admits (headerBucket hs) headers ↔ HoldsHeaders admits (· ∈ hs) headers := by
  rw [conforms_iff_of_additional (names_addHeader.additional_foldl hs _),
    properties_headerBucket hnames]
  simp only [mem_required_headerBucket_iff]
  constructor
  · intro hbucket
    obtain ⟨hrequired, hnamed⟩ := hbucket
    constructor
    · intro h hh v hv
      have haccepts := hnamed h.property (List.mem_map.mpr ⟨h, hh, rfl⟩) v hv
      rwa [Header.property, accepts_given] at haccepts
    · intro h hh hflag
      exact hrequired _ ⟨h, hh, hflag, rfl⟩
  · intro hholds
    obtain ⟨hadmitted, hpresent⟩ := hholds
    constructor
    · rintro _ ⟨h, hh, hflag, rfl⟩
      exact hpresent h hh hflag
    · intro p hp v hv
      obtain ⟨h, hh, rfl⟩ := List.mem_map.mp hp
      rw [Header.property, accepts_given]
      exact hadmitted h hh v hv

/-! ## The bucket of a message with a body -/

/-- The bucket of the declared headers, with the content type pinned. -/
def pinnedBucket (hs : List Header) (contentType : String) : ObjectNode Node :=
  ((headerBucket hs).set contentTypeName (.pinned (.str contentType))).require contentTypeName

/-- What declared headers say of the headers of a message with a body of one content type.  A
declared `Content-Type` gives way to that type. -/
structure CarriesHeaders (admits : Value → Value → Bool) (declares : Header → Prop)
    (contentType : String) (headers : Entries) : Prop where
  pinned : Entries.field? headers "Content-Type" = some (.str contentType)
  admitted : ∀ h, declares h → h.name ≠ "Content-Type" → ∀ v,
    Entries.field? headers h.name = some v → admits h.schema v = true
  present : ∀ h, declares h → h.required = true → Entries.has headers (.str h.name) = true

theorem mem_properties_pinnedBucket_iff {hs : List Header} {contentType : String}
    (hnames : (hs.map (·.name)).Nodup) {p : Value × Node} :
    p ∈ (pinnedBucket hs contentType).properties ↔
      p = (contentTypeName, .pinned (.str contentType)) ∨
        ∃ h ∈ hs, h.name ≠ "Content-Type" ∧ p = h.property := by
  have hkeys : (Entries.keys (hs.map Header.property)).Nodup := by
    have hmap : Entries.keys (hs.map Header.property) = (hs.map (·.name)).map Value.str := by
      simp [Entries.keys, Header.property]
    rw [hmap]
    exact hnames.map fun _ _ => Value.str.inj
  rw [pinnedBucket, ObjectNode.properties_require, ObjectNode.set, properties_headerBucket hnames]
  refine (Entries.mem_insert_iff hkeys).trans (or_congr_right ?_)
  rw [List.mem_map]
  constructor
  · intro hother
    obtain ⟨⟨h, hh, rfl⟩, hne⟩ := hother
    exact ⟨h, hh, fun hname => hne (congrArg Value.str hname), rfl⟩
  · intro hheader
    obtain ⟨h, hh, hname, rfl⟩ := hheader
    exact ⟨⟨h, hh, rfl⟩, fun heq => hname (Value.str.inj heq)⟩

theorem mem_required_pinnedBucket_iff {hs : List Header} {contentType : String} {name : Value} :
    name ∈ (pinnedBucket hs contentType).required ↔
      (∃ h ∈ hs, h.required = true ∧ name = .str h.name) ∨ name = contentTypeName := by
  rw [pinnedBucket, contentTypeName, mem_required_require_iff, ObjectNode.required_set,
    mem_required_headerBucket_iff]

theorem conforms_pinnedBucket_iff {hs : List Header} {contentType : String}
    (hnames : (hs.map (·.name)).Nodup) :
    Conforms admits (pinnedBucket hs contentType) headers ↔
      CarriesHeaders admits (· ∈ hs) contentType headers := by
  have hadditional : (pinnedBucket hs contentType).additional = .bool true := by
    rw [pinnedBucket, ObjectNode.additional_require]
    exact names_addHeader.additional_foldl hs _
  rw [conforms_iff_of_additional hadditional]
  simp only [mem_required_pinnedBucket_iff, mem_properties_pinnedBucket_iff hnames]
  constructor
  · intro hbucket
    obtain ⟨hrequired, hnamed⟩ := hbucket
    have hpresent := hrequired contentTypeName (Or.inr rfl)
    rw [Entries.has_eq_isSome_get?] at hpresent
    obtain ⟨v, hv⟩ := Option.isSome_iff_exists.mp hpresent
    obtain rfl := accepts_pinned_iff.mp (hnamed _ (Or.inl rfl) v hv)
    constructor
    · exact hv
    · intro h hh hname v hv
      have haccepts := hnamed h.property (Or.inr ⟨h, hh, hname, rfl⟩) v hv
      rwa [Header.property, accepts_given] at haccepts
    · intro h hh hflag
      exact hrequired _ (Or.inl ⟨h, hh, hflag, rfl⟩)
  · intro hcarries
    obtain ⟨hpinned, hadmitted, hpresent⟩ := hcarries
    constructor
    · rintro name (⟨h, hh, hflag, rfl⟩ | rfl)
      · exact hpresent h hh hflag
      · rw [Entries.has_eq_isSome_get?]
        exact Option.isSome_of_mem hpinned
    · rintro p (rfl | ⟨h, hh, hname, rfl⟩) v hv
      · rw [accepts_pinned_iff]
        exact Option.some.inj (hv.symm.trans hpinned)
      · rw [Header.property, accepts_given]
        exact hadmitted h hh hname v hv

/-! ## The branches as records -/

variable {r : Response} {status : String}

theorem responseBase_eq_record (hstatus : r.status = some status) :
    responseBase r true = record (
      (.str "status", .pinned (.str status)) ::
        if r.headers.isEmpty then []
        else [(.str "headers", .object (headerBucket r.headers))]) := by
  unfold responseBase
  rw [hstatus]
  cases r.headers with
  | nil => rfl
  | cons h rest =>
      simp [ObjectNode.set, ObjectNode.require, ObjectNode.closed, Entries.insert, record,
        headerBucket]

theorem headersOf_responseBase (hstatus : r.status = some status) :
    headersOf (responseBase r true) = headerBucket r.headers := by
  rw [responseBase_eq_record hstatus]
  cases r.headers with
  | nil =>
      simp [headersOf, ObjectNode.property?, Entries.field?, Entries.get?, record]
      rfl
  | cons h rest =>
      simp [headersOf, ObjectNode.property?, Entries.field?, Entries.get?, record, Node.asObject?]

theorem withContent_responseBase_eq_record (hstatus : r.status = some status)
    (variant : ContentVariant) :
    withContent (responseBase r true) true variant = record [
      (.str "status", .pinned (.str status)),
      (.str "headers", .object (pinnedBucket r.headers variant.contentType)),
      (.str "body", .given variant.schema)] := by
  unfold withContent
  rw [headersOf_responseBase hstatus, responseBase_eq_record hstatus]
  cases r.headers with
  | nil =>
      simp [ObjectNode.set, ObjectNode.require, ObjectNode.requireAll, Entries.insert, record,
        pinnedBucket]
  | cons h rest =>
      simp [ObjectNode.set, ObjectNode.require, ObjectNode.requireAll, Entries.insert, record,
        pinnedBucket]

theorem responseBranches_of_bare (hbare : r.variants = []) :
    responseBranches r true = [responseBase r true] := by
  unfold Response.variants at hbare
  unfold responseBranches
  cases hcontent : r.content with
  | none => rfl
  | some found =>
      rw [hcontent] at hbare
      obtain rfl : found = [] := hbare
      rfl

theorem responseBranches_of_variants (hsome : r.variants ≠ []) :
    responseBranches r true = r.variants.map (withContent (responseBase r true) true) := by
  unfold Response.variants at hsome ⊢
  unfold responseBranches
  cases hcontent : r.content with
  | none => exact absurd (by rw [hcontent]; rfl) hsome
  | some found =>
      cases found with
      | nil => exact absurd (by rw [hcontent]; rfl) hsome
      | cons first rest => rfl

/-! ## What a branch accepts -/

/-- A message with a body: it has the status, the headers and the body, and nothing else. -/
structure WithBody (admits : Value → Value → Bool) (status : String) (declares : Header → Prop)
    (variant : ContentVariant) (fields : Entries) : Prop where
  keys : ∀ e ∈ fields, e.1 = .str "status" ∨ e.1 = .str "headers" ∨ e.1 = .str "body"
  status : Entries.field? fields "status" = some (.str status)
  headers : ∃ headers, Entries.field? fields "headers" = some (.map headers) ∧
    CarriesHeaders admits declares variant.contentType headers
  body : ∃ body, Entries.field? fields "body" = some body ∧ admits variant.schema body = true

/-- A message without a body: it has the status, headers if some are declared, and nothing
else. -/
structure WithoutBody (admits : Value → Value → Bool) (status : String)
    (declares : Header → Prop) (fields : Entries) : Prop where
  keys : ∀ e ∈ fields, e.1 = .str "status" ∨ e.1 = .str "headers"
  status : Entries.field? fields "status" = some (.str status)
  headers : Entries.has fields (.str "headers") = true ↔ ∃ h, declares h
  held : ∀ v, Entries.field? fields "headers" = some v →
    ∃ headers, v = .map headers ∧ HoldsHeaders admits declares headers

theorem accepts_withContent_iff (hstatus : r.status = some status)
    (hnames : (r.headers.map (·.name)).Nodup) {variant : ContentVariant} {x : Value} :
    accepts admits (.object (withContent (responseBase r true) true variant)) x = true ↔
      ∃ fields, x = .map fields ∧ WithBody admits status (· ∈ r.headers) variant fields := by
  rw [withContent_responseBase_eq_record hstatus, accepts_object_iff]
  refine exists_congr fun fields => and_congr_right fun _ => ?_
  rw [conforms_record_iff]
  simp only [List.forall_mem_cons, accepts_pinned_iff, accepts_given, accepts_object_iff,
    conforms_pinnedBucket_iff hnames, Entries.has_cons_str_iff, Entries.has_nil,
    Bool.false_eq_true, or_false]
  constructor
  · intro hrecord
    obtain ⟨⟨⟨_, hs, rfl⟩, ⟨_, hheaders, headers, rfl, hcarries⟩, hbody, -⟩, hkeys⟩ := hrecord
    exact ⟨hkeys, hs, ⟨headers, hheaders, hcarries⟩, hbody⟩
  · intro hwith
    obtain ⟨hkeys, hs, ⟨headers, hheaders, hcarries⟩, hbody⟩ := hwith
    have hnamed : ∃ v, Entries.field? fields "headers" = some v ∧
        ∃ headers, v = .map headers ∧
          CarriesHeaders admits (· ∈ r.headers) variant.contentType headers :=
      ⟨_, hheaders, headers, rfl, hcarries⟩
    exact ⟨⟨⟨_, hs, rfl⟩, hnamed, hbody, List.forall_mem_nil _⟩, hkeys⟩

theorem conforms_bare_iff :
    Conforms admits (record [(.str "status", .pinned (.str status))]) fields ↔
      WithoutBody admits status (· ∈ ([] : List Header)) fields := by
  rw [conforms_record_iff]
  simp only [List.forall_mem_singleton, accepts_pinned_iff, Entries.has_cons_str_iff,
    Entries.has_nil, Bool.false_eq_true, or_false]
  constructor
  · intro hrecord
    obtain ⟨⟨_, hs, rfl⟩, hkeys⟩ := hrecord
    have habsent : ¬Entries.has fields (.str "headers") = true := by
      rw [Entries.has_str_iff]
      intro hpresent
      obtain ⟨e, he, hkey⟩ := hpresent
      simp [hkeys e he] at hkey
    constructor
    · exact fun e he => Or.inl (hkeys e he)
    · exact hs
    · simp [habsent]
    · intro v hv
      exact absurd (Entries.has_str_of_field? hv) habsent
  · intro hwithout
    obtain ⟨hkeys, hs, hheaders, _⟩ := hwithout
    refine ⟨⟨_, hs, rfl⟩, fun e he => ?_⟩
    rcases hkeys e he with hkey | hkey
    · exact hkey
    · obtain ⟨h, hh⟩ := hheaders.mp (Entries.has_str_iff.mpr ⟨e, he, hkey⟩)
      simp at hh

theorem conforms_headed_iff {hs : List Header} (hnames : (hs.map (·.name)).Nodup)
    (hnonempty : hs ≠ []) :
    Conforms admits (record [(.str "status", .pinned (.str status)),
        (.str "headers", .object (headerBucket hs))]) fields ↔
      WithoutBody admits status (· ∈ hs) fields := by
  rw [conforms_record_iff]
  simp only [List.forall_mem_cons, accepts_pinned_iff, accepts_object_iff,
    conforms_headerBucket_iff hnames, Entries.has_cons_str_iff, Entries.has_nil,
    Bool.false_eq_true, or_false]
  constructor
  · intro hrecord
    obtain ⟨⟨⟨_, hs, rfl⟩, ⟨_, hheaders, headers, rfl, hholds⟩, -⟩, hkeys⟩ := hrecord
    constructor
    · exact hkeys
    · exact hs
    · exact iff_of_true (Entries.has_str_of_field? hheaders) (List.exists_mem_of_ne_nil _ hnonempty)
    · intro v hv
      exact ⟨headers, Option.some.inj (hv.symm.trans hheaders), hholds⟩
  · intro hwithout
    obtain ⟨hkeys, hs, hheaders, hheld⟩ := hwithout
    have hpresent := hheaders.mpr (List.exists_mem_of_ne_nil _ hnonempty)
    rw [Entries.has_eq_isSome_get?] at hpresent
    obtain ⟨v, hv⟩ := Option.isSome_iff_exists.mp hpresent
    exact ⟨⟨⟨_, hs, rfl⟩, ⟨v, hv, hheld v hv⟩, List.forall_mem_nil _⟩, hkeys⟩

theorem accepts_responseBase_iff (hstatus : r.status = some status)
    (hnames : (r.headers.map (·.name)).Nodup) {x : Value} :
    accepts admits (.object (responseBase r true)) x = true ↔
      ∃ fields, x = .map fields ∧ WithoutBody admits status (· ∈ r.headers) fields := by
  rw [responseBase_eq_record hstatus, accepts_object_iff]
  refine exists_congr fun fields => and_congr_right fun _ => ?_
  split
  · rename_i hempty
    rw [List.isEmpty_iff.mp hempty]
    exact conforms_bare_iff
  · rename_i hnonempty
    exact conforms_headed_iff hnames fun hempty => hnonempty (List.isEmpty_iff.mpr hempty)

end ApiContract.Schema
