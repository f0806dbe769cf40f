import ApiContract.Proofs.Schema.DeclaredResponse
import ApiContract.Proofs.Schema.ResponseBranch
import Mathlib

/-!
# What the schema of the responses accepts

The schema of the responses of an operation is a choice of which exactly one branch applies.  The
pinned status tells the branches of different responses apart and the pinned content type those of
one response, so the choice accepts what any branch accepts: the messages that a declared response
describes.

Names that are told apart in the description may be read as the same text, since bytes that hold a
text are read as that text.  Two media types of one response then exclude each other, and of two
headers the later replaces the schema of the earlier, so such names have to be left out.
-/

namespace ApiContract.Schema

variable {admits : Value → Value → Bool} {r : Response} {status : String} {x : Value}

/-! ## The branches of one response -/

/-- A message that a response with certain headers and variants under a status describes. -/
def Describes (admits : Value → Value → Bool) (status : String) (declaresHeader : Header → Prop)
    (declaresVariant : ContentVariant → Prop) (x : Value) : Prop :=
  ∃ fields, x = .map fields ∧
    ((∃ variant, declaresVariant variant ∧
        WithBody admits status declaresHeader variant fields) ∨
      (¬(∃ variant, declaresVariant variant) ∧ WithoutBody admits status declaresHeader fields))

theorem Describes.status_eq {declaresHeader : Header → Prop}
    {declaresVariant : ContentVariant → Prop} {fields : Entries}
    (hdescribes : Describes admits status declaresHeader declaresVariant (.map fields)) :
    Entries.field? fields "status" = some (.str status) := by
  obtain ⟨_, ⟨⟩, ⟨_, _, hwith⟩ | ⟨_, hwithout⟩⟩ := hdescribes
  · exact hwith.status
  · exact hwithout.status

theorem exists_accepting_branch_iff (hstatus : r.status = some status)
    (hheaders : (r.headers.map (·.name)).Nodup) :
    (∃ branch ∈ responseBranches r true, accepts admits (.object branch) x = true) ↔
      Describes admits status (· ∈ r.headers) (· ∈ r.variants) x := by
  by_cases hbare : r.variants = []
  · rw [responseBranches_of_bare hbare]
    simp [accepts_responseBase_iff hstatus hheaders, Describes, hbare]
  · rw [responseBranches_of_variants hbare]
    have hsome : ∃ variant, variant ∈ r.variants := List.exists_mem_of_ne_nil _ hbare
    simp only [List.mem_map, exists_exists_and_eq_and, accepts_withContent_iff hstatus hheaders,
      Describes, hsome, not_true_eq_false, false_and, or_false]
    constructor
    · intro haccepted
      obtain ⟨variant, hvariant, fields, rfl, hwith⟩ := haccepted
      exact ⟨fields, rfl, variant, hvariant, hwith⟩
    · intro hdescribes
      obtain ⟨fields, rfl, variant, hvariant, hwith⟩ := hdescribes
      exact ⟨variant, hvariant, fields, rfl, hwith⟩

/-- Branches that are told apart by their content types exclude each other. -/
theorem responseBranches_exclusive (hstatus : r.status = some status)
    (hheaders : (r.headers.map (·.name)).Nodup)
    (hvariants : (r.variants.map (·.contentType)).Nodup) :
    (responseBranches r true).Pairwise fun left right =>
      ¬(accepts admits (.object left) x = true ∧ accepts admits (.object right) x = true) := by
  by_cases hbare : r.variants = []
  · rw [responseBranches_of_bare hbare]
    exact List.pairwise_singleton _ _
  · rw [responseBranches_of_variants hbare, List.pairwise_map]
    rw [List.Nodup, List.pairwise_map] at hvariants
    refine hvariants.imp fun {left right} hne => ?_
    -- Each branch requires its own content type, and one message names a single one.
    intro hboth
    obtain ⟨hacceptsLeft, hacceptsRight⟩ := hboth
    obtain ⟨fields, rfl, hleft⟩ := (accepts_withContent_iff hstatus hheaders).mp hacceptsLeft
    obtain ⟨_, ⟨⟩, hright⟩ := (accepts_withContent_iff hstatus hheaders).mp hacceptsRight
    obtain ⟨headers, hfield, hleftCarries⟩ := hleft.headers
    obtain ⟨others, hother, hrightCarries⟩ := hright.headers
    obtain rfl : headers = others := by simpa [hfield] using hother
    apply hne
    simpa [hleftCarries.pinned] using hrightCarries.pinned

/-! ## The choice between all branches -/

/-- A response of an operation whose headers and media types have different names. -/
structure Response.IsDistinct (r : Response) : Prop where
  status : ∃ status, r.status = some status
  headers : (r.headers.map (·.name)).Nodup
  variants : (r.variants.map (·.contentType)).Nodup

/-- All branches of a response pin its status, whatever their content is. -/
theorem status_eq_of_accepts (hdistinct : r.IsDistinct) {branch : ObjectNode Node}
    (hbranch : branch ∈ responseBranches r true)
    (haccepts : accepts admits (.object branch) x = true) :
    ∃ fields, x = .map fields ∧ Entries.field? fields "status" = r.status.map Value.str := by
  obtain ⟨status, hstatus⟩ := hdistinct.status
  have hdescribes := (exists_accepting_branch_iff hstatus hdistinct.headers).mp
    ⟨branch, hbranch, haccepts⟩
  obtain ⟨fields, rfl, -⟩ := id hdescribes
  exact ⟨fields, rfl, by rw [hdescribes.status_eq, hstatus, Option.map_some]⟩

theorem branches_exclusive {responses : List Response} (hdistinct : ∀ r ∈ responses, r.IsDistinct)
    (hstatuses : (responses.map (·.status)).Nodup) :
    (responses.flatMap (responseBranches · true)).Pairwise fun left right =>
      ¬(accepts admits (.object left) x = true ∧ accepts admits (.object right) x = true) := by
  rw [List.pairwise_flatMap]
  constructor
  · intro r hr
    obtain ⟨status, hstatus⟩ := (hdistinct r hr).status
    exact responseBranches_exclusive hstatus (hdistinct r hr).headers (hdistinct r hr).variants
  · rw [List.Nodup, List.pairwise_map] at hstatuses
    refine hstatuses.imp_of_mem fun {first second} hfirst hsecond hne left hleft right hright => ?_
    intro hboth
    obtain ⟨hacceptsLeft, hacceptsRight⟩ := hboth
    obtain ⟨fields, rfl, hfirstStatus⟩ :=
      status_eq_of_accepts (hdistinct first hfirst) hleft hacceptsLeft
    obtain ⟨_, ⟨⟩, hsecondStatus⟩ :=
      status_eq_of_accepts (hdistinct second hsecond) hright hacceptsRight
    have hmap : first.status.map Value.str = second.status.map Value.str :=
      hfirstStatus.symm.trans hsecondStatus
    exact hne (Option.map_injective (fun _ _ => Value.str.inj) hmap)

theorem accepts_choice_iff {responses : List Response} (hdistinct : ∀ r ∈ responses, r.IsDistinct)
    (hstatuses : (responses.map (·.status)).Nodup) :
    accepts admits (choice (responses.flatMap (responseBranches · true))) x = true ↔
      ∃ r ∈ responses, ∃ status, r.status = some status ∧
        Describes admits status (· ∈ r.headers) (· ∈ r.variants) x := by
  rw [choice, accepts_oneOf_iff (List.pairwise_map.mpr (branches_exclusive hdistinct hstatuses))]
  simp only [List.mem_map, List.mem_flatMap]
  constructor
  · intro haccepted
    obtain ⟨_, ⟨branch, ⟨r, hr, hbranch⟩, rfl⟩, haccepts⟩ := haccepted
    obtain ⟨status, hstatus⟩ := (hdistinct r hr).status
    have hdescribes := (exists_accepting_branch_iff hstatus (hdistinct r hr).headers).mp
      ⟨branch, hbranch, haccepts⟩
    exact ⟨r, hr, status, hstatus, hdescribes⟩
  · intro hdescribed
    obtain ⟨r, hr, status, hstatus, hdescribes⟩ := hdescribed
    obtain ⟨branch, hbranch, haccepts⟩ :=
      (exists_accepting_branch_iff hstatus (hdistinct r hr).headers).mpr hdescribes
    exact ⟨_, ⟨branch, ⟨r, hr, hbranch⟩, rfl⟩, haccepts⟩

/-! ## Declared responses -/

/-- The declared headers of a response have different names as texts, and so have its usable media
types. -/
structure DistinctNames (response : Value) : Prop where
  headers : ((declaredHeaders response).map fun entry => nameOf entry.1).Nodup
  media : ((declaredMedia response).map fun entry => nameOf entry.1).Nodup

theorem nodup_map_of_reads {α β : Type} {R : α → β → Prop} {as : List α} {bs : List β}
    {f : α → Except Fault String} {g : β → String} (hall : List.Forall₂ R as bs)
    (hreads : ∀ a b, R a b → f a = .ok (g b)) (hnodup : (as.map f).Nodup) : (bs.map g).Nodup := by
  have hmap : as.map f = (bs.map g).map Except.ok := by
    rw [map_eq_map_of_forall₂ hall hreads, List.map_map]
    rfl
  rw [hmap] at hnodup
  exact hnodup.of_map Except.ok

theorem ReadsResponse.isDistinct {entry : Value × Value} (hreads : ReadsResponse entry r)
    (hnames : DistinctNames entry.2) : r.IsDistinct where
  status := ⟨_, hreads.status⟩
  headers := nodup_map_of_reads hreads.headers (fun _ _ h => h.name) hnames.headers
  variants := nodup_map_of_reads hreads.variants (fun _ _ h => h.contentType) hnames.media

/-- The schema of resolved responses accepts exactly the messages that one of the declared responses
describes, whatever the schemas of the description admit. -/
def AcceptsDescribed (responses : List Response) (declared : Value) : Prop :=
  ∃ schema, (responsesSchema responses).outcome = .ok schema ∧
    ∀ admits x, accepts admits schema x = true ↔
      ∃ entry ∈ declaredResponses (entriesIn declared),
        Describes admits entry.1.shown (DeclaresHeader entry.2) (DeclaresVariant entry.2) x

/-- Responses under different statuses, each with distinct names, have a schema that accepts exactly
what they describe. -/
theorem responsesSchema_acceptsDescribed {declared : Value} {responses : List Response}
    (hread : resolveResponses declared = .ok responses)
    (hstatuses : ((declaredResponses (entriesIn declared)).map (·.1.shown)).Nodup)
    (hnames : ∀ entry ∈ declaredResponses (entriesIn declared), DistinctNames entry.2) :
    AcceptsDescribed responses declared := by
  have hall := readsResponses_of_resolveResponses hread
  have hdistinct : ∀ r ∈ responses, r.IsDistinct := by
    intro r hr
    obtain ⟨entry, hentry, hreads⟩ := exists_of_mem_right hall hr
    exact hreads.isDistinct (hnames entry hentry)
  have hdifferent : (responses.map (·.status)).Nodup := by
    have hmap : responses.map (·.status) =
        ((declaredResponses (entriesIn declared)).map (·.1.shown)).map some := by
      rw [List.map_map]
      exact (map_eq_map_of_forall₂ hall fun _ _ hreads => hreads.status.symm).symm
    rw [hmap]
    exact hstatuses.map fun _ _ => Option.some.inj
  refine ⟨_, rfl, fun admits x => ?_⟩
  rw [accepts_choice_iff hdistinct hdifferent]
  constructor
  · intro hresolved
    obtain ⟨r, hr, status, hstatus, hdescribes⟩ := hresolved
    obtain ⟨entry, hentry, hreads⟩ := exists_of_mem_right hall hr
    refine ⟨entry, hentry, ?_⟩
    obtain rfl : entry.1.shown = status := by simpa [hreads.status] using hstatus
    simpa only [Describes, hreads.mem_headers_iff, hreads.mem_variants_iff] using hdescribes
  · intro hdeclared
    obtain ⟨entry, hentry, hdescribes⟩ := hdeclared
    obtain ⟨r, hr, hreads⟩ := exists_of_mem_left hall hentry
    refine ⟨r, hr, entry.1.shown, hreads.status, ?_⟩
    simpa only [Describes, hreads.mem_headers_iff, hreads.mem_variants_iff] using hdescribes

/-- An operation that answers with one of two media types or without a body. -/
def storeResponses : Value :=
  .map [
    (.int 200, .map [
      (.str "headers", .map [(.str "X-Rate", .map [
        (.str "schema", .map [(.str "type", .str "integer")]), (.str "required", .bool true)])]),
      (.str "content", .map [
        (.str "application/json", .map [(.str "schema", .map [])]),
        (.str "text/plain", .map [(.str "schema", .map [(.str "type", .str "string")])])])]),
    (.str "204", .map []),
    (.str "x-internal", .map [])]

def storeResolved : List Response :=
  [⟨"200", [⟨"X-Rate", .map [(.str "type", .str "integer")], true⟩],
      some [⟨"application/json", .map []⟩,
        ⟨"text/plain", .map [(.str "type", .str "string")]⟩]⟩,
    ⟨"204", [], none⟩]

theorem storeResponses_acceptsDescribed :
    resolveResponses storeResponses = .ok storeResolved ∧
      AcceptsDescribed storeResolved storeResponses := by
  have hread : resolveResponses storeResponses = .ok storeResolved := by cbv
  have hdeclared : declaredResponses (entriesIn storeResponses) =
      (entriesIn storeResponses).take 2 := by cbv
  refine ⟨hread, responsesSchema_acceptsDescribed hread (by cbv; decide) ?_⟩
  rw [hdeclared]
  simp only [storeResponses, entriesIn, Value.asMap?, Option.getD_some, List.take,
    List.forall_mem_cons]
  exact ⟨⟨by cbv; simp, by cbv; simp⟩, ⟨by cbv; simp, by cbv; simp⟩, List.forall_mem_nil _⟩

/-- A response with two media types whose names are the same text, once as a text and once as
bytes. -/
def mediaTwice : Value :=
  .map [(.str "content", .map [
    (.str "hi", .map [(.str "schema", .map [])]),
    (.bytes [104, 105], .map [(.str "schema", .map [])])])]

/-- A response with two headers whose names are the same text. -/
def headersTwice : Value :=
  .map [(.str "headers", .map [
    (.str "hi", .map [(.str "schema", .bool false)]),
    (.bytes [104, 105], .map [(.str "schema", .bool true)])])]

def mediaMessage : Value :=
  .map [(.str "status", .str "200"), (.str "headers", .map [(.str "Content-Type", .str "hi")]),
    (.str "body", .null)]

def headersMessage : Value :=
  .map [(.str "status", .str "200"), (.str "headers", .map [(.str "hi", .null)])]

theorem describes_mediaTwice :
    Describes (fun _ _ => true) "200" (DeclaresHeader mediaTwice) (DeclaresVariant mediaTwice)
      mediaMessage := by
  have hmedia : declaredMedia mediaTwice =
      [(.str "hi", .map []), (.bytes [104, 105], .map [])] := by cbv
  have hheaders : declaredHeaders mediaTwice = [] := by cbv
  have hvariant : DeclaresVariant mediaTwice ⟨"hi", .map []⟩ := by
    refine ⟨(.str "hi", .map []), ?_, rfl, rfl⟩
    rw [hmedia]
    exact List.mem_cons_self
  have hnone : ∀ h, ¬DeclaresHeader mediaTwice h := by
    rintro h ⟨entry, hentry, _⟩
    simp [hheaders] at hentry
  have hcarries : CarriesHeaders (fun _ _ => true) (DeclaresHeader mediaTwice) "hi"
      [(.str "Content-Type", .str "hi")] := by
    constructor
    · cbv
    · exact fun h hh => absurd hh (hnone h)
    · exact fun h hh => absurd hh (hnone h)
  exact ⟨_, rfl, Or.inl ⟨_, hvariant, by simp, by cbv, ⟨_, by cbv, hcarries⟩, .null, by cbv, rfl⟩⟩

theorem not_describes_headersTwice :
    ¬Describes (fun given _ => given.truthy) "200" (DeclaresHeader headersTwice)
      (DeclaresVariant headersTwice) headersMessage := by
  have hmedia : declaredMedia headersTwice = [] := by cbv
  have hheaders : declaredHeaders headersTwice =
      [(.str "hi", .map [(.str "schema", .bool false)]),
        (.bytes [104, 105], .map [(.str "schema", .bool true)])] := by cbv
  have hdeclares : DeclaresHeader headersTwice ⟨"hi", .bool false, false⟩ := by
    refine ⟨(.str "hi", .map [(.str "schema", .bool false)]), ?_, rfl, by cbv, .null, by cbv, rfl⟩
    rw [hheaders]
    exact List.mem_cons_self
  rintro ⟨_, ⟨⟩, ⟨_, ⟨media, hdeclared, _⟩, _⟩ | ⟨_, hwithout⟩⟩
  · simp [hmedia] at hdeclared
  · obtain ⟨_, ⟨⟩, hholds⟩ := hwithout.held (.map [(.str "hi", .null)]) (by cbv)
    have hadmitted := hholds.admitted _ hdeclares .null (by cbv)
    simp [Value.truthy] at hadmitted

/-- The declared responses are read under different statuses, but their schema does not accept
exactly what they describe. -/
def IsMisjudged (declared : Value) : Prop :=
  ∃ responses, resolveResponses declared = .ok responses ∧
    ((declaredResponses (entriesIn declared)).map (·.1.shown)).Nodup ∧
      ¬AcceptsDescribed responses declared

/-- Without distinct names a described message may be rejected, and one that is not described may
be accepted. -/
theorem sameNames_isMisjudged :
    IsMisjudged (.map [(.str "200", mediaTwice)]) ∧
      IsMisjudged (.map [(.str "200", headersTwice)]) := by
  refine ⟨?media, ?headers⟩
  case media =>
    refine ⟨[⟨"200", [], some [⟨"hi", .map []⟩, ⟨"hi", .map []⟩]⟩], by cbv, by cbv; decide, ?_⟩
    rintro ⟨_, ⟨⟩, hiff⟩
    have haccepts := (hiff _ _).mpr ⟨_, List.mem_cons_self, describes_mediaTwice⟩
    exact absurd haccepts (by cbv; decide)
  case headers =>
    refine ⟨[⟨"200", [⟨"hi", .bool false, false⟩, ⟨"hi", .bool true, false⟩], none⟩], by cbv,
      by cbv; decide, ?_⟩
    rintro ⟨_, ⟨⟩, hiff⟩
    obtain ⟨entry, hentry, hdescribes⟩ :=
      (hiff (fun given _ => given.truthy) headersMessage).mp (by cbv)
    have honly : declaredResponses (entriesIn (.map [(.str "200", headersTwice)])) =
        [(.str "200", headersTwice)] := by cbv
    rw [honly, List.mem_singleton] at hentry
    subst hentry
    exact not_describes_headersTwice hdescribes

end ApiContract.Schema
