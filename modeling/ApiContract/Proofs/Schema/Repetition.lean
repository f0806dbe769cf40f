import ApiContract.Proofs.Schema.RequestBranch

/-!
# Parameters that are repeated

A parameter is known by its name and its location, and a list may hold several with the same ones.
Each of them overwrites the property of its name in the bucket of the location, but a name that one
of them requires stays required.  So a property has the schema of the last parameter that is called
so, and the requirement of any of them: the two come from one parameter unless the last one is
optional and another one is not.
-/

namespace ApiContract.Schema

variable {parameters : List Parameter} {location : ParameterLocation} {name : String}
  {p : Parameter}

/-- The last parameter of a name in a location. -/
def lastNamed (parameters : List Parameter) (location : ParameterLocation) (name : String) :
    Option Parameter :=
  (parameters.filter (·.key == (name, location))).getLast?

theorem mem_of_lastNamed (hlast : lastNamed parameters location name = some p) :
    p ∈ parameters ∧ p.key = (name, location) := by
  obtain ⟨hp, hkey⟩ := List.mem_filter.mp (List.mem_of_getLast? hlast)
  exact ⟨hp, beq_iff_eq.mp hkey⟩

/-- A bucket has the schemas of the parameters that come last. -/
theorem property?_bucket (parameters : List Parameter) (location : ParameterLocation)
    (name : String) :
    (bucket parameters location).property? name =
      (lastNamed parameters location name).map fun p => .given p.schema := by
  have hnamed : (parameters.filter (·.location == location)).filter (·.name == name) =
      parameters.filter (·.key == (name, location)) := by
    rw [List.filter_filter]
    rfl
  have hinitial : (if location = .path then ObjectNode.closed else .unrestricted).property? name =
      (none : Option Node) := by
    split <;> rfl
  rw [bucket, names_addParameter.property?_foldl, hnamed, hinitial, Option.or_none, lastNamed]

theorem mem_required_bucket_iff_exists_key :
    .str name ∈ (bucket parameters location).required ↔
      ∃ p ∈ parameters, p.key = (name, location) ∧ p.required = true := by
  rw [mem_required_bucket_iff]
  constructor
  · rintro ⟨p, hp, rfl, hflag, hname⟩
    obtain rfl := Value.str.inj hname
    exact ⟨p, hp, rfl, hflag⟩
  · rintro ⟨p, hp, hkey, hflag⟩
    obtain ⟨rfl, rfl⟩ := Prod.mk.inj hkey
    exact ⟨p, hp, rfl, hflag, rfl⟩

/-- A bucket has the schema and the requirement of one parameter under the name of that parameter. -/
structure TakesFrom (o : ObjectNode Node) (p : Parameter) : Prop where
  schema : o.property? p.name = some (.given p.schema)
  required : .str p.name ∈ o.required ↔ p.required = true

/-- The last parameter of a name gives the requirement along with the schema, unless it is optional
and an earlier one is not. -/
theorem takesFrom_bucket_iff (hlast : lastNamed parameters location name = some p) :
    TakesFrom (bucket parameters location) p ↔
      (p.required = false → ∀ q ∈ parameters, q.key = p.key → q.required = false) := by
  obtain ⟨hp, hkey⟩ := mem_of_lastNamed hlast
  obtain ⟨rfl, rfl⟩ := Prod.mk.inj hkey
  have hschema : (bucket parameters p.location).property? p.name = some (.given p.schema) := by
    rw [property?_bucket, hlast]
    rfl
  constructor
  · intro htakes hoptional q hq hsame
    by_contra hflag
    have hrequired : .str p.name ∈ (bucket parameters p.location).required :=
      mem_required_bucket_iff_exists_key.mpr ⟨q, hq, hsame, by simpa using hflag⟩
    rw [htakes.required, hoptional] at hrequired
    cases hrequired
  · intro hall
    refine ⟨hschema, ?_⟩
    rw [mem_required_bucket_iff_exists_key]
    constructor
    · rintro ⟨q, hq, hsame, hflag⟩
      by_contra hoptional
      rw [hall (Bool.eq_false_iff.mpr hoptional) q hq hsame] at hflag
      cases hflag
    · exact fun hflag => ⟨p, hp, rfl, hflag⟩

/-- In a request without a body the bucket of a location has, under each name, the schema of the last
parameter that is called so there, and requires the names that one of its parameters requires.  So
schema and requirement come from one parameter, except where an optional one comes last and another
one of its name is required. -/
theorem requestSchema_takes_last (parameters : List Parameter) :
    ∃ base, (requestSchema parameters none).outcome = .ok (choice [base]) ∧
      ∀ location, ∃ o, base.property? (bucketName location) = some (.object o) ∧
        (∀ name, o.property? name =
          (lastNamed parameters location name).map fun p => .given p.schema) ∧
        (∀ name, .str name ∈ o.required ↔
          ∃ p ∈ parameters, p.key = (name, location) ∧ p.required = true) ∧
        ∀ name p, lastNamed parameters location name = some p →
          (TakesFrom o p ↔
            (p.required = false → ∀ q ∈ parameters, q.key = p.key → q.required = false)) := by
  refine ⟨requestBase parameters, rfl, fun location => ?_⟩
  refine ⟨bucket parameters location, property?_requestBase parameters location, ?_, ?_, ?_⟩
  · exact property?_bucket parameters location
  · exact fun name => mem_required_bucket_iff_exists_key
  · exact fun name p => takesFrom_bucket_iff

/-- A limit that must be given as a text. -/
def strictLimit : Parameter := ⟨"limit", .query, .map [(.str "type", .str "string")], true⟩

/-- A limit that may be given as a number. -/
def looseLimit : Parameter := ⟨"limit", .query, .map [(.str "type", .str "integer")], false⟩

/-- If the strict limit comes last, the bucket takes both from it. -/
theorem limits_take_last :
    ∃ base o, (requestSchema [looseLimit, strictLimit] none).outcome = .ok (choice [base]) ∧
      base.property? "query" = some (.object o) ∧
      lastNamed [looseLimit, strictLimit] .query "limit" = some strictLimit ∧
      TakesFrom o strictLimit := by
  obtain ⟨base, hschema, hbuckets⟩ := requestSchema_takes_last [looseLimit, strictLimit]
  obtain ⟨o, ho, -, -, htakes⟩ := hbuckets .query
  have hlast : lastNamed [looseLimit, strictLimit] .query "limit" = some strictLimit := rfl
  exact ⟨base, o, hschema, ho, hlast, (htakes "limit" strictLimit hlast).mpr nofun⟩

/-- If the loose limit comes last, the bucket has its schema, but requires the name because of the
strict one. -/
theorem limits_mix_parameters :
    ∃ base o, (requestSchema [strictLimit, looseLimit] none).outcome = .ok (choice [base]) ∧
      base.property? "query" = some (.object o) ∧
      o.property? "limit" = some (.given looseLimit.schema) ∧
      ∀ p ∈ [strictLimit, looseLimit], ¬ TakesFrom o p := by
  have hschema : (bucket [strictLimit, looseLimit] .query).property? "limit" =
      some (.given looseLimit.schema) := property?_bucket _ .query "limit"
  have hrequired : .str "limit" ∈ (bucket [strictLimit, looseLimit] .query).required :=
    mem_required_bucket_iff_exists_key.mpr ⟨strictLimit, List.mem_cons_self, rfl, rfl⟩
  refine ⟨_, _, rfl, property?_requestBase _ .query, hschema, ?_⟩
  intro p hp htakes
  rw [List.mem_cons, List.mem_singleton] at hp
  rcases hp with rfl | rfl
  · have hboth := htakes.schema.symm.trans hschema
    simp [strictLimit, looseLimit] at hboth
  · exact absurd (htakes.required.mp hrequired) Bool.false_ne_true

end ApiContract.Schema
