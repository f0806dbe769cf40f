import ApiContract.Proofs.Schema.DeclaredParameter
import Mathlib.Data.List.Permutation

/-!
# Merging two levels of parameters

The parameters of an operation come first, just as they are declared; of those of its path item the
ones follow that the operation does not declare itself.  Both lists are read in full before they are
merged, that of the operation first, so a declaration that cannot be read fails the merge even if it
would have been overridden.
-/

namespace ApiContract.Schema

variable {raw : Value} {ds : List Value} {ps : List Parameter} {fault : Fault}

/-! ## Reading a list -/

/-- A declaration is read as a parameter. -/
def ReadsTo (declaration : Value) (p : Parameter) : Prop := resolveParameter declaration = .ok p

/-- A list of declarations fails with what its first declaration that cannot be read fails with. -/
def FailsAtFirst (ds : List Value) (fault : Fault) : Prop :=
  ∃ before d after, ds = before ++ d :: after ∧ (∃ ps, List.Forall₂ ReadsTo before ps) ∧
    resolveParameter d = .error fault

theorem resolveEach_eq_ok_iff : resolveEach ds = .ok ps ↔ List.Forall₂ ReadsTo ds ps := by
  induction ds generalizing ps with
  | nil => cases ps <;> simp [resolveEach]
  | cons d rest ih =>
      simp only [resolveEach, bind_eq_ok_iff, ih]
      constructor
      · rintro ⟨first, hfirst, others, hothers, hps⟩
        cases hps
        exact .cons hfirst hothers
      · intro hall
        cases hall with
        | cons hfirst hothers => exact ⟨_, hfirst, _, hothers, rfl⟩

theorem resolveEach_eq_error_iff : resolveEach ds = .error fault ↔ FailsAtFirst ds fault := by
  induction ds with
  | nil => simp [resolveEach, FailsAtFirst]
  | cons d rest ih =>
      simp only [resolveEach, bind_eq_error_iff, ih]
      constructor
      · rintro (hfirst | ⟨first, hfirst, hothers | ⟨_, _, ⟨⟩⟩⟩)
        · exact ⟨[], d, rest, rfl, ⟨[], .nil⟩, hfirst⟩
        · obtain ⟨before, bad, after, rfl, ⟨ps, hbefore⟩, hbad⟩ := hothers
          exact ⟨d :: before, bad, after, rfl, ⟨first :: ps, .cons hfirst hbefore⟩, hbad⟩
      · rintro ⟨before, bad, after, hds, ⟨ps, hbefore⟩, hbad⟩
        cases hbefore with
        | nil =>
            obtain ⟨rfl, rfl⟩ := List.cons.inj hds
            exact .inl hbad
        | cons hfirst hothers =>
            obtain ⟨rfl, rfl⟩ := List.cons.inj hds
            exact .inr ⟨_, hfirst, .inl ⟨_, bad, after, rfl, ⟨_, hothers⟩, hbad⟩⟩

/-- What parameters can be declared in: a list, a pair, or nothing at all. -/
inductive IsParameterList : Value → Prop
  | absent : IsParameterList .null
  | list (ds : List Value) : IsParameterList (.list ds)
  | pair (first second : Value) : IsParameterList (.pair first second)

theorem resolveParameters_of_isParameterList (hlist : IsParameterList raw) :
    resolveParameters raw = resolveEach (declarations raw) := by
  cases hlist <;> rfl

/-- The failure for a value of a kind that parameters cannot be declared in. -/
def notAList (raw : Value) : Fault :=
  .build { cause := .parametersNotList raw.kindName, field := .str "parameters" }

theorem resolveParameters_of_not_isParameterList (hlist : ¬ IsParameterList raw) :
    resolveParameters raw = .error (notAList raw) := by
  cases raw with
  | null => exact absurd .absent hlist
  | list ds => exact absurd (.list ds) hlist
  | pair first second => exact absurd (.pair first second) hlist
  | _ => rfl

theorem resolveParameters_eq_ok_iff :
    resolveParameters raw = .ok ps ↔
      IsParameterList raw ∧ List.Forall₂ ReadsTo (declarations raw) ps := by
  by_cases hlist : IsParameterList raw
  · rw [resolveParameters_of_isParameterList hlist, resolveEach_eq_ok_iff]
    exact (and_iff_right hlist).symm
  · rw [resolveParameters_of_not_isParameterList hlist]
    exact ⟨nofun, fun h => absurd h.1 hlist⟩

theorem resolveParameters_eq_error_iff :
    resolveParameters raw = .error fault ↔
      (¬ IsParameterList raw ∧ fault = notAList raw) ∨
        (IsParameterList raw ∧ FailsAtFirst (declarations raw) fault) := by
  by_cases hlist : IsParameterList raw
  · rw [resolveParameters_of_isParameterList hlist, resolveEach_eq_error_iff]
    simp [hlist]
  · rw [resolveParameters_of_not_isParameterList hlist]
    simp [hlist, eq_comm]

/-- A declaration that cannot be read leaves no list. -/
theorem resolveParameters_ne_ok_of_mem {d : Value} (hd : d ∈ declarations raw)
    (hfails : resolveParameter d = .error fault) : resolveParameters raw ≠ .ok ps := by
  intro hread
  obtain ⟨p, -, hp⟩ := exists_of_mem_left (resolveParameters_eq_ok_iff.mp hread).2 hd
  rw [ReadsTo, hfails] at hp
  cases hp

/-! ## Merging -/

theorem outcome_mergeParameters (pathLevel operationLevel : Value) :
    (mergeParameters pathLevel operationLevel).outcome =
      resolveParameters operationLevel >>= fun ops =>
        resolveParameters pathLevel >>= fun paths => .ok (mergeResolved ops paths) := by
  simp only [mergeParameters, Traced.outcome_bind, Traced.outcome_lift]

theorem mergeResolved_eq (ops paths : List Parameter) :
    mergeResolved ops paths = ops ++ paths.filter fun p => ops.all fun q => q.key != p.key := by
  refine congrArg (ops ++ ·) (List.filter_congr fun p _ => ?_)
  rw [overridden, List.not_any_eq_all_not]
  rfl

/-- Merged are the parameters of the operation, and behind them those of the path item that no
parameter of the operation shares its name and location with; there are none if one of the two lists
cannot be read.  It is the list of the operation that decides on the failure, as long as it fails: a
list fails by its kind, or with its first declaration that does.  Where neither list repeats a name
and location the merged one does not, and whatever declaration fails, it fails the merge. -/
theorem mergeParameters_overrides (pathLevel operationLevel : Value) :
    (∀ merged, (mergeParameters pathLevel operationLevel).outcome = .ok merged ↔
      ∃ ops paths, resolveParameters operationLevel = .ok ops ∧
        resolveParameters pathLevel = .ok paths ∧
        merged = ops ++ paths.filter fun p => ops.all fun q => q.key != p.key) ∧
    (∀ fault, (mergeParameters pathLevel operationLevel).outcome = .error fault ↔
      resolveParameters operationLevel = .error fault ∨
        ((∃ ops, resolveParameters operationLevel = .ok ops) ∧
          resolveParameters pathLevel = .error fault)) ∧
    (∀ raw, (∀ ps, resolveParameters raw = .ok ps ↔
        IsParameterList raw ∧ List.Forall₂ ReadsTo (declarations raw) ps) ∧
      ∀ fault, resolveParameters raw = .error fault ↔
        (¬ IsParameterList raw ∧ fault = notAList raw) ∨
          (IsParameterList raw ∧ FailsAtFirst (declarations raw) fault)) ∧
    (∀ ops paths merged, resolveParameters operationLevel = .ok ops →
      resolveParameters pathLevel = .ok paths →
      (mergeParameters pathLevel operationLevel).outcome = .ok merged →
      (ops.map (·.key)).Nodup → (paths.map (·.key)).Nodup → (merged.map (·.key)).Nodup) ∧
    ∀ d ∈ declarations pathLevel, ∀ fault, resolveParameter d = .error fault →
      ∀ merged, (mergeParameters pathLevel operationLevel).outcome ≠ .ok merged := by
  have hmerged : ∀ merged, (mergeParameters pathLevel operationLevel).outcome = .ok merged ↔
      ∃ ops paths, resolveParameters operationLevel = .ok ops ∧
        resolveParameters pathLevel = .ok paths ∧ merged = mergeResolved ops paths := by
    intro merged
    simp only [outcome_mergeParameters, bind_eq_ok_iff, Except.ok.injEq]
    constructor
    · rintro ⟨ops, hops, paths, hpaths, rfl⟩
      exact ⟨ops, paths, hops, hpaths, rfl⟩
    · rintro ⟨ops, paths, hops, hpaths, rfl⟩
      exact ⟨ops, hops, paths, hpaths, rfl⟩
  refine ⟨fun merged => ?_, fun fault => ?_, fun raw => ?_, ?_, ?_⟩
  · simp only [hmerged, mergeResolved_eq]
  · simp only [outcome_mergeParameters, bind_eq_error_iff]
    constructor
    · rintro (hops | ⟨ops, hops, hpaths | ⟨_, _, ⟨⟩⟩⟩)
      · exact .inl hops
      · exact .inr ⟨⟨ops, hops⟩, hpaths⟩
    · rintro (hops | ⟨⟨ops, hops⟩, hpaths⟩)
      · exact .inl hops
      · exact .inr ⟨ops, hops, .inl hpaths⟩
  · exact ⟨fun _ => resolveParameters_eq_ok_iff, fun _ => resolveParameters_eq_error_iff⟩
  · intro ops paths merged hops hpaths hmerge hopsDiffer hpathsDiffer
    obtain ⟨ops', paths', hops', hpaths', rfl⟩ := (hmerged merged).mp hmerge
    obtain rfl := Except.ok.inj (hops.symm.trans hops')
    obtain rfl := Except.ok.inj (hpaths.symm.trans hpaths')
    exact nodup_key_mergeResolved hopsDiffer hpathsDiffer
  · intro d hd fault hfails merged hmerge
    obtain ⟨ops, paths, -, hpaths, -⟩ := (hmerged merged).mp hmerge
    exact resolveParameters_ne_ok_of_mem hd hfails hpaths

/-- A parameter of the query and one of the headers, as they are declared and as they are read. -/
def limitDeclared : Value :=
  .map [(.str "name", .str "limit"), (.str "in", .str "query"), (.str "schema", .map [])]

def limit : Parameter := ⟨"limit", .query, .map [], false⟩

def traceDeclared : Value :=
  .map [(.str "name", .str "trace"), (.str "in", .str "header"), (.str "schema", .map [])]

def trace : Parameter := ⟨"trace", .header, .map [], false⟩

/-- The parameter of the query without its schema. -/
def limitBare : Value := .map [(.str "name", .str "limit"), (.str "in", .str "query")]

/-- A repetition is kept, a parameter that both levels declare is taken from the operation, and one
that could not be read would fail the merge all the same. -/
theorem limit_overrides :
    (mergeParameters (.list [limitDeclared, traceDeclared])
      (.list [limitDeclared, limitDeclared])).outcome = .ok [limit, limit, trace] ∧
    ([limit, trace].map (·.key)).Nodup ∧
    ∀ merged, (mergeParameters (.list [limitBare]) (.list [limitDeclared])).outcome ≠
      .ok merged := by
  have hlimit : resolveParameters (.list [limitDeclared]) = .ok [limit] := by cbv
  have htrace : resolveParameters (.list [traceDeclared]) = .ok [trace] := by cbv
  have hmerge : (mergeParameters (.list [traceDeclared]) (.list [limitDeclared])).outcome =
      .ok [limit, trace] := by
    rw [(mergeParameters_overrides _ _).1]
    exact ⟨[limit], [trace], hlimit, htrace, by cbv⟩
  have hbare : resolveParameter limitBare = .error (.build
      { cause := .neitherSchemaNorContent, field := .str "parameter 'limit'" }) := by cbv
  refine ⟨?_, ?_, ?_⟩
  · rw [(mergeParameters_overrides _ _).1]
    exact ⟨[limit, limit], [limit, trace], by cbv, by cbv, by cbv⟩
  · exact (mergeParameters_overrides _ _).2.2.2.1 _ _ _ hlimit htrace hmerge
      (List.nodup_singleton _) (List.nodup_singleton _)
  · exact (mergeParameters_overrides _ (.list [limitDeclared])).2.2.2.2 limitBare
      List.mem_cons_self _ hbare

end ApiContract.Schema
