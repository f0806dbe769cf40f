import ApiContract.Proofs.Failing
import ApiContract.Proofs.Schema.Stamping
import ApiContract.Schema.Operation

/-!
# Readers that know no place

What reads the declarations of an operation does not know which operation it is reading for.  Its
failures tell of a field at most; the path and the method are filled in by whoever builds the
operation.  Nor does it look for anything that need not be there, so it never tells of an absence.
-/

namespace ApiContract.Schema

/-- A misfit, or a failure of the builders that tells of no path, of no method and of no absence. -/
def IsUnplaced (fault : Fault) : Prop :=
  fault = .misfit ∨ ∃ e : BuildError, fault = .build e ∧ e.path = .null ∧ e.method = .null ∧
    e.cause.family.isAbsence = false

/-- A stage ends in a value or in a failure without a place. -/
abbrev Unplaced {α : Type} (x : Except Fault α) : Prop := FailsOnly IsUnplaced x

section Stages

variable {α β : Type} {x : Except Fault α}

theorem isUnplaced_misfit : IsUnplaced .misfit := .inl rfl

/-- A failure that is reported is the builder's error itself. -/
theorem eq_of_ofBuild {given e : BuildError} (hreported : Fault.ofBuild given = .build e) :
    given = e := by
  unfold Fault.ofBuild at hreported
  split at hreported
  · exact Fault.build.inj hreported
  · cases hreported

theorem isUnplaced_ofBuild {cause : BuildCause} {field : Value}
    (hcause : cause.family.isAbsence = false) : IsUnplaced (.ofBuild { cause, field }) := by
  unfold Fault.ofBuild
  split
  · exact .inr ⟨_, rfl, rfl, rfl, hcause⟩
  · exact isUnplaced_misfit

theorem IsUnplaced.isOrdinary {fault : Fault} (hfault : IsUnplaced fault) : fault.IsOrdinary := by
  obtain rfl | ⟨e, rfl, -, -, hcause⟩ := hfault
  · exact Fault.isOrdinary_misfit
  · exact Fault.isOrdinary_build hcause

theorem Unplaced.ordinary {α : Type} {x : Except Fault α} (hx : Unplaced x) : Ordinary x :=
  hx.mono fun _ => IsUnplaced.isOrdinary

/-- A stage that is refused under a condition. -/
theorem unplaced_guard {b : Bool} {f : β → Except Fault α} {cause : BuildCause} {field : Value}
    (hcause : cause.family.isAbsence = false) (hrest : Unplaced x) :
    Unplaced (if b = true then throw (.ofBuild { cause, field }) >>= f else x) :=
  failsOnly_guard (isUnplaced_ofBuild hcause) hrest

theorem unplaced_orMisfit (found : Option α) : Unplaced (orMisfit found) :=
  failsOnly_orMisfit isUnplaced_misfit found

end Stages

/-! ## Parts of a declaration -/

section Parts

variable (v : Value) (name : String)

theorem unplaced_entriesOf : Unplaced (entriesOf v) := unplaced_orMisfit _

theorem unplaced_entriesIfAny : Unplaced (entriesIfAny v) := by
  unfold entriesIfAny
  split
  · exact unplaced_entriesOf v
  · exact .ok _

theorem unplaced_fieldOf : Unplaced (fieldOf v name) := (unplaced_entriesOf v).map

theorem unplaced_nameOf : Unplaced (nameOf v) := by
  cases v with
  | str s => exact .ok _
  | bytes octets => exact unplaced_orMisfit _
  | _ => exact .error isUnplaced_misfit

end Parts

/-! ## Media types, parameters and headers -/

theorem unplaced_stampProperties (properties encodings : Entries) :
    Unplaced (stampProperties properties encodings) := by
  induction encodings generalizing properties with
  | nil => exact .ok _
  | cons entry rest ih =>
      rw [stampProperties, stampProperty_eq]
      refine FailsOnly.andThen ?_ ih
      apply FailsOnly.map
      unfold encodingType
      split
      · exact unplaced_fieldOf _ _
      · exact .ok _

theorem unplaced_stamp (schema encodings : Value) : Unplaced (stamp schema encodings) := by
  unfold stamp
  split
  · split
    · refine (unplaced_entriesOf encodings).andThen fun _ => ?_
      exact (unplaced_stampProperties _ _).andThen fun _ => .ok _
    · exact .ok _
  · exact .ok _

theorem unplaced_schemaFromContent (content field : Value) :
    Unplaced (schemaFromContent content field) := by
  unfold schemaFromContent
  refine unplaced_guard rfl (unplaced_guard rfl ?_)
  refine (unplaced_orMisfit _).andThen fun _ => ?_
  refine (unplaced_orMisfit _).andThen fun _ => ?_
  refine (unplaced_orMisfit _).andThen fun _ => unplaced_guard rfl ?_
  refine (unplaced_orMisfit _).andThen fun _ => unplaced_guard rfl ?_
  refine (unplaced_orMisfit _).andThen fun schema => ?_
  exact (unplaced_fieldOf _ _).andThen fun _ => unplaced_stamp schema _

theorem unplaced_deriveSchema (declaration field : Value) :
    Unplaced (deriveSchema declaration field) := by
  unfold deriveSchema
  refine (unplaced_orMisfit _).andThen fun _ => ?_
  split
  · exact unplaced_orMisfit _
  · refine (unplaced_orMisfit _).andThen fun _ => ?_
    split
    · exact (unplaced_orMisfit _).andThen fun _ => unplaced_schemaFromContent _ field
    · exact .error (isUnplaced_ofBuild rfl)

theorem unplaced_resolveParameter (declaration : Value) :
    Unplaced (resolveParameter declaration) := by
  unfold resolveParameter
  refine unplaced_guard rfl ((unplaced_fieldOf _ _).andThen fun named => ?_)
  split
  · simp only [pure_bind]
    refine (unplaced_fieldOf _ _).andThen fun place => ?_
    split
    · exact (unplaced_deriveSchema _ _).andThen fun _ =>
        (unplaced_fieldOf _ _).andThen fun _ => .ok _
    · exact .error (isUnplaced_ofBuild rfl)
  · exact .error (isUnplaced_ofBuild rfl)

theorem unplaced_resolveEach (ds : List Value) : Unplaced (resolveEach ds) := by
  induction ds with
  | nil => exact .ok _
  | cons d rest ih =>
      rw [resolveEach]
      exact (unplaced_resolveParameter d).andThen fun _ => ih.andThen fun _ => .ok _

theorem unplaced_resolveParameters (v : Value) : Unplaced (resolveParameters v) := by
  cases v with
  | null => exact .ok _
  | list ds => exact unplaced_resolveEach ds
  | pair first second => exact unplaced_resolveEach [first, second]
  | _ => exact .error (isUnplaced_ofBuild rfl)

theorem unplaced_mergeParameters (pathLevel operationLevel : Value) :
    Unplaced (mergeParameters pathLevel operationLevel).outcome := by
  simp only [mergeParameters, Traced.outcome_bind, Traced.outcome_lift]
  refine (unplaced_resolveParameters operationLevel).andThen fun _ => ?_
  exact (unplaced_resolveParameters pathLevel).andThen fun _ => .ok _

theorem unplaced_resolveHeader (name declaration : Value) :
    Unplaced (resolveHeader name declaration) := by
  unfold resolveHeader
  refine unplaced_guard rfl (unplaced_guard rfl ?_)
  refine (unplaced_deriveSchema _ _).andThen fun _ => ?_
  refine (unplaced_fieldOf _ _).andThen fun _ => ?_
  exact (unplaced_nameOf name).andThen fun _ => .ok _

theorem unplaced_resolveHeaderEntries (entries : Entries) :
    Unplaced (resolveHeaderEntries entries) := by
  induction entries with
  | nil => exact .ok _
  | cons entry rest ih =>
      rw [resolveHeaderEntries]
      split
      · exact ih
      · exact (unplaced_resolveHeader _ _).andThen fun _ => ih.andThen fun _ => .ok _

/-! ## Bodies and responses -/

theorem unplaced_variants (entries : Entries) : Unplaced (variants entries) := by
  induction entries with
  | nil => exact .ok _
  | cons entry rest ih =>
      rw [variants]
      refine FailsOnly.andThen ?_ fun _ => ih.andThen fun _ => .ok _
      rw [variant?.eq_def]
      split
      · split
        · exact (unplaced_nameOf _).map
        · exact .ok _
      · exact .ok _

theorem unplaced_resolveBody (requestBody : Value) : Unplaced (resolveBody requestBody) := by
  unfold resolveBody
  split
  · exact .ok _
  · refine (unplaced_fieldOf _ _).andThen fun content => ?_
    cases content with
    | map entries =>
        refine (unplaced_variants entries).andThen fun found => ?_
        cases found with
        | nil => exact .ok _
        | cons first others => exact (unplaced_fieldOf _ _).andThen fun _ => .ok _
    | _ => exact .ok _

theorem unplaced_resolveResponse (status response : Value) :
    Unplaced (resolveResponse status response) := by
  unfold resolveResponse resolveHeaders resolveContent
  refine unplaced_guard rfl (FailsOnly.andThen (unplaced_guard rfl ?_) fun _ => ?_)
  · refine (unplaced_fieldOf _ _).andThen fun declared => ?_
    exact (unplaced_entriesIfAny declared).andThen unplaced_resolveHeaderEntries
  · refine FailsOnly.andThen ?_ fun _ => .ok _
    split
    · exact .ok _
    · refine (unplaced_fieldOf _ _).andThen fun content => ?_
      split
      · exact (unplaced_variants _).andThen fun _ => .ok _
      · exact .ok _

theorem unplaced_resolveResponses (responses : Value) :
    Unplaced (resolveResponses responses) := by
  refine (unplaced_entriesIfAny responses).andThen fun entries => ?_
  induction entries with
  | nil => exact .ok _
  | cons entry rest ih =>
      rw [resolveResponseEntries]
      split
      · exact ih
      · exact (unplaced_resolveResponse _ _).andThen fun _ => ih.andThen fun _ => .ok _

/-- Whatever goes wrong in reading an operation, the failure does not tell which operation it is. -/
theorem unplaced_operationShape (pathItem declaration : Value) :
    Unplaced (operationShape pathItem declaration).outcome := by
  simp only [operationShape, requestSchema, responsesSchema, Traced.outcome_bind,
    Traced.outcome_lift, Traced.outcome_pure]
  refine (unplaced_fieldOf _ _).andThen fun _ => ?_
  refine (unplaced_fieldOf _ _).andThen fun _ => ?_
  refine (unplaced_mergeParameters _ _).andThen fun _ => ?_
  refine FailsOnly.andThen ((unplaced_fieldOf _ _).andThen unplaced_resolveBody) fun _ => ?_
  refine FailsOnly.andThen (.ok _) fun _ => ?_
  refine FailsOnly.andThen ((unplaced_fieldOf _ _).andThen unplaced_resolveResponses) fun _ => ?_
  exact FailsOnly.andThen (.ok _) fun _ => .ok _

end ApiContract.Schema
