import ApiContract.Proofs.Schema.Success
import ApiContract.Schema.Parameter
import Mathlib.Data.List.Nodup

/-!
# What an operation declares as parameters

The declarations of an operation come first, those of its path item follow unless the operation has
one of the same name and location.  Merged parameters are read from these declarations one by one,
in order; declarations of different names or locations give parameters that differ in the same way.
-/

namespace ApiContract.Schema

variable {declared declaration : Value} {p : Parameter}

/-- What a declaration has under a name, null when it has nothing there. -/
def memberIn (declaration : Value) (name : String) : Value :=
  Entries.fieldD (entriesIn declaration) name

theorem memberIn_of_fieldOf {name : String} {v : Value} (hread : fieldOf declaration name = .ok v) :
    memberIn declaration name = v := by
  obtain ⟨entries, rfl, hfield⟩ := fieldOf_eq_ok_iff.mp hread
  exact hfield

/-- The declarations of a list of parameters, which may be left out. -/
def declarations : Value → List Value
  | .list ds => ds
  | .pair first second => [first, second]
  | _ => []

/-- What a declared parameter is known by. -/
def declaredKey (declaration : Value) : Value × Value :=
  (memberIn declaration "name", memberIn declaration "in")

/-- Whether two declarations are of the same name and location. -/
def sameParameter (left right : Value) : Bool :=
  (memberIn left "name").same (memberIn right "name") &&
    (memberIn left "in").same (memberIn right "in")

/-- The declarations of an operation, and those of its path item that it does not shadow. -/
def effectiveDeclarations (operationLevel pathLevel : List Value) : List Value :=
  operationLevel ++ pathLevel.filter fun d => !operationLevel.any (sameParameter · d)

/-- A parameter as a declaration declares it. -/
structure ReadsParameter (declaration : Value) (p : Parameter) : Prop where
  name : memberIn declaration "name" = .str p.name
  location : memberIn declaration "in" = .str p.location.name
  schema : deriveSchema declaration (.str s!"parameter '{p.name}'") = .ok p.schema
  required : p.required = (p.location == .path || (memberIn declaration "required").truthy)

/-! ## Reading -/

theorem ParameterLocation.eq_str_of_ofName? {place : Value} {location : ParameterLocation}
    (hplace : ofName? place = some location) : place = .str location.name := by
  cases place with
  | str s =>
      rw [ofName?] at hplace
      have hfound := List.find?_some hplace
      rw [beq_iff_eq.mp hfound]
  | _ => simp [ofName?] at hplace

theorem readsParameter_of_resolveParameter (hread : resolveParameter declaration = .ok p) :
    ReadsParameter declaration p := by
  unfold resolveParameter at hread
  obtain ⟨-, hread⟩ := guard_eq_ok_iff.mp hread
  obtain ⟨named, hnamed, hread⟩ := bind_eq_ok_iff.mp hread
  obtain ⟨name, rfl⟩ : ∃ name, named = .str name := by
    cases named with
    | str name => exact ⟨name, rfl⟩
    | _ => simp [bind_eq_ok_iff] at hread
  simp only [pure_bind] at hread
  obtain ⟨place, hplace, hread⟩ := bind_eq_ok_iff.mp hread
  cases hlocation : ParameterLocation.ofName? place with
  | none => simp [hlocation, bind_eq_ok_iff] at hread
  | some location =>
      simp only [hlocation] at hread
      obtain ⟨schema, hschema, hread⟩ := bind_eq_ok_iff.mp hread
      obtain ⟨flag, hflag, hread⟩ := bind_eq_ok_iff.mp hread
      cases hread
      constructor
      · exact memberIn_of_fieldOf hnamed
      · exact (memberIn_of_fieldOf hplace).trans (ParameterLocation.eq_str_of_ofName? hlocation)
      · exact hschema
      · rw [memberIn_of_fieldOf hflag]

theorem readsParameters_of_resolveEach {ds : List Value} {ps : List Parameter}
    (hread : resolveEach ds = .ok ps) : List.Forall₂ ReadsParameter ds ps := by
  induction ds generalizing ps with
  | nil =>
      cases hread
      exact .nil
  | cons d rest ih =>
      rw [resolveEach] at hread
      obtain ⟨first, hfirst, hread⟩ := bind_eq_ok_iff.mp hread
      obtain ⟨others, hothers, hread⟩ := bind_eq_ok_iff.mp hread
      cases hread
      exact .cons (readsParameter_of_resolveParameter hfirst) (ih hothers)

theorem readsParameters_of_resolveParameters {ps : List Parameter}
    (hread : resolveParameters declared = .ok ps) :
    List.Forall₂ ReadsParameter (declarations declared) ps := by
  cases declared with
  | null =>
      cases hread
      exact .nil
  | list ds => exact readsParameters_of_resolveEach hread
  | pair first second => exact readsParameters_of_resolveEach hread
  | _ => simp [resolveParameters] at hread

/-! ## Merging -/

theorem ParameterLocation.name_injective : Function.Injective name := by
  intro left right heq
  cases left <;> cases right <;> simp_all [name]

theorem declaredKey_eq (hreads : ReadsParameter declaration p) :
    declaredKey declaration = (.str p.name, .str p.location.name) := by
  rw [declaredKey, hreads.name, hreads.location]

theorem sameParameter_eq {other : Value} {q : Parameter} (hreads : ReadsParameter declaration p)
    (hother : ReadsParameter other q) : sameParameter declaration other = (p.key == q.key) := by
  rw [sameParameter, hreads.name, hother.name, hreads.location, hother.location, Value.same_str,
    Value.same_str, Bool.eq_iff_iff, Bool.and_eq_true]
  simp only [beq_iff_eq, Parameter.key, Prod.mk.injEq]
  constructor
  · intro hboth
    exact ⟨hboth.1, ParameterLocation.name_injective hboth.2⟩
  · intro hboth
    exact ⟨hboth.1, congrArg ParameterLocation.name hboth.2⟩

theorem any_sameParameter_eq {ds : List Value} {ps : List Parameter}
    (hall : List.Forall₂ ReadsParameter ds ps) (hreads : ReadsParameter declaration p) :
    ds.any (sameParameter · declaration) = overridden ps p := by
  have hmap : ds.map (sameParameter · declaration) = ps.map (·.key == p.key) :=
    map_eq_map_of_forall₂ hall fun _ _ hother => sameParameter_eq hother hreads
  have hany := congrArg (List.any · id) hmap
  simpa only [List.any_map, Function.id_comp, overridden] using hany

/-- Merged parameters are read from the effective declarations, in order. -/
theorem readsParameters_mergeResolved {operationLevel pathLevel : List Value}
    {ops paths : List Parameter} (hops : List.Forall₂ ReadsParameter operationLevel ops)
    (hpaths : List.Forall₂ ReadsParameter pathLevel paths) :
    List.Forall₂ ReadsParameter (effectiveDeclarations operationLevel pathLevel)
      (mergeResolved ops paths) := by
  apply List.rel_append hops
  apply List.rel_filter ?_ hpaths
  intro d q hreads
  simp only [any_sameParameter_eq hops hreads]

/-! ## Distinct parameters -/

/-- No two declarations are of the same name and location. -/
def DistinctParameters (ds : List Value) : Prop :=
  (ds.map declaredKey).Nodup

theorem nodup_key_of_distinct {ds : List Value} {ps : List Parameter}
    (hall : List.Forall₂ ReadsParameter ds ps) (hdistinct : DistinctParameters ds) :
    (ps.map (·.key)).Nodup := by
  have hmap : ds.map declaredKey =
      (ps.map (·.key)).map fun key => (.str key.1, .str key.2.name) := by
    rw [List.map_map]
    exact map_eq_map_of_forall₂ hall fun _ _ hreads => declaredKey_eq hreads
  rw [DistinctParameters, hmap] at hdistinct
  exact hdistinct.of_map _

theorem nodup_key_mergeResolved {ops paths : List Parameter} (hops : (ops.map (·.key)).Nodup)
    (hpaths : (paths.map (·.key)).Nodup) : ((mergeResolved ops paths).map (·.key)).Nodup := by
  rw [mergeResolved, List.map_append, List.nodup_append]
  refine ⟨hops, hpaths.sublist (List.filter_sublist.map _), ?_⟩
  rintro key hkey other hother rfl
  obtain ⟨p, hp, rfl⟩ := List.mem_map.mp hkey
  obtain ⟨q, hq, hsame⟩ := List.mem_map.mp hother
  obtain ⟨-, hfree⟩ := List.mem_filter.mp hq
  have hover : overridden ops q = true := List.any_eq_true.mpr ⟨p, hp, by simp [hsame]⟩
  simp [hover] at hfree

/-- Among parameters of one location the names tell them apart. -/
theorem nodup_name_of_nodup_key {ps : List Parameter} (hkeys : (ps.map (·.key)).Nodup)
    (location : ParameterLocation) :
    ((ps.filter (·.location == location)).map (·.name)).Nodup := by
  rw [List.Nodup, List.pairwise_map] at hkeys ⊢
  refine (hkeys.filter _).imp_of_mem fun {p q} hp hq hne hname => ?_
  have hpLocation : p.location = location := by simpa using (List.mem_filter.mp hp).2
  have hqLocation : q.location = location := by simpa using (List.mem_filter.mp hq).2
  apply hne
  rw [Parameter.key, Parameter.key, hname, hpLocation, hqLocation]

end ApiContract.Schema
