import ApiContract.Proofs.Description.Loading
import ApiContract.Proofs.Schema.Unplaced
import ApiContract.Schema.Roots
import ApiContract.Settings.Store

/-!
# Exit codes of the stages

Whatever goes wrong while settings are read, a description is loaded, its references are expanded or
its component table is built, the exit code tells, and it is not that of an absence.
-/

namespace ApiContract

namespace Schema

/-! ## Schemas -/

theorem isOrdinary_notProvided (argument : String) : (notProvided argument).IsOrdinary :=
  Fault.isOrdinary_ofBuild rfl

section Members

variable (collection : Collection) (document : Value)

theorem ordinary_collectionOf : Ordinary (collectionOf collection document) := by
  unfold collectionOf
  split
  · exact .error (isOrdinary_notProvided _)
  · exact (unplaced_fieldOf _ _).ordinary

theorem ordinary_items : Ordinary (items collection document) := by
  refine (ordinary_collectionOf _ _).andThen fun declaration => ?_
  exact (unplaced_entriesIfAny declaration).ordinary.andThen fun _ => .ok _

end Members

theorem unplaced_componentNode (kind : ComponentKind) (name declaration : Value) :
    Unplaced (componentNode kind name declaration) := by
  cases kind with
  | schemas => exact .ok _
  | responses =>
      rw [componentNode]
      split
      · exact .error (isUnplaced_ofBuild rfl)
      · exact (unplaced_resolveResponse _ _).map
  | parameters => exact (unplaced_resolveParameter _).map
  | requestBodies =>
      rw [componentNode]
      split
      · exact .error (isUnplaced_ofBuild rfl)
      · exact (unplaced_resolveBody _).map
  | headers => exact (unplaced_resolveHeader _ _).map

theorem unplaced_componentNodes (kind : ComponentKind) (members : Entries) :
    Unplaced (componentNodes kind members) := by
  induction members with
  | nil => exact .ok _
  | cons entry rest ih =>
      rw [componentNodes]
      exact (unplaced_componentNode _ _ _).andThen fun _ => ih.andThen fun _ => .ok _

theorem unplaced_tokenOfEntries (fields : Entries) :
    Unplaced (tokenOfEntries fields).outcome := by
  induction fields with
  | nil => exact .ok _
  | cons entry rest ih =>
      simp only [tokenOfEntries, Traced.outcome_bind, Traced.outcome_pure]
      refine FailsOnly.andThen ?_ fun _ => ih.andThen fun _ => .ok _
      unfold tokenEntry
      split
      · exact .ok _
      · split
        · exact .ok _
        · simp only [Traced.outcome_bind, Traced.outcome_lift]
          refine FailsOnly.andThen ?_ fun _ => .ok _
          exact (unplaced_entriesOf _).andThen fun members => unplaced_componentNodes _ members

variable (document : Value)

theorem ordinary_componentsToken : Ordinary (componentsToken document).outcome := by
  unfold componentsToken
  refine failsOnly_stage_guard (Fault.isOrdinary_ofBuild rfl) ?_
  simp only [Traced.outcome_bind, Traced.outcome_lift]
  refine FailsOnly.andThen ?_ fun fields => (unplaced_tokenOfEntries fields).ordinary
  exact (unplaced_fieldOf _ _).ordinary.andThen fun field =>
    (unplaced_entriesIfAny field).ordinary

end Schema

/-! ## Descriptions -/

namespace Description

open Host Schema

variable (w : World) (timeout : Binary64) (source : String)

theorem IsLoadFault.isOrdinary {fault : Fault} (hfault : IsLoadFault fault) : fault.IsOrdinary := by
  cases hfault with
  | source e => exact Fault.isOrdinary_source e
  | misfit => exact Fault.isOrdinary_misfit

theorem ordinary_load : Ordinary (load w timeout source).outcome := by
  rw [outcome_load]
  have hfails : FailsOnly IsLoadFault ((sourceText w timeout source).outcome >>= ofSourceText) :=
    (failsOnly_sourceText w timeout source).andThen failsOnly_ofSourceText
  exact hfails.mono fun _ => IsLoadFault.isOrdinary

theorem ordinary_versionText (declared : Value) : Ordinary (versionText declared) := by
  unfold versionText
  split
  · exact .ok _
  · exact .error Fault.isOrdinary_misfit

theorem ordinary_version (description : Value) : Ordinary (version description) := by
  unfold version
  refine (ordinary_orMisfit _).andThen fun isOld => ?_
  cases isOld with
  | true =>
      refine (ordinary_orMisfit _).andThen fun old => ?_
      exact (ordinary_versionText old).andThen fun _ => .error (Fault.isOrdinary_source _)
  | false =>
      refine (unplaced_fieldOf _ _).ordinary.andThen fun declared => ?_
      refine failsOnly_guard (Fault.isOrdinary_source _) ?_
      refine (ordinary_versionText declared).andThen fun text => ?_
      split
      · exact .ok _
      · exact .error (Fault.isOrdinary_source _)

theorem ordinary_inline (description : Value) : Ordinary (inline description).outcome := by
  unfold inline
  dsimp only
  split
  · exact .ok _
  · exact .error (Fault.isOrdinary_references _)

theorem ordinary_loadInline : Ordinary (loadInline w timeout source).outcome := by
  simp only [loadInline, Traced.outcome_bind]
  refine (ordinary_load _ _ _).andThen fun description => ?_
  exact (ordinary_version _).andThen fun _ => ordinary_inline _

end Description

/-! ## Settings -/

namespace Settings

open Host

variable (w : World)

theorem ordinary_mapError_settings {α : Type} (x : Except SettingsError α) :
    Ordinary (x.mapError Fault.settings) := by
  cases x with
  | ok a => exact .ok _
  | error e => exact .error (Fault.isOrdinary_settings e)

theorem ordinary_readSections (file : SettingsFile) (path : Path) (octets : List UInt8) :
    Ordinary (readSections file path octets) := by
  unfold readSections
  split
  · exact .error Fault.isOrdinary_misfit
  · split
    · exact .ok _
    · exact .error (Fault.isOrdinary_settings _)
    · exact .error (Fault.isOrdinary_settings _)
    · exact .error Fault.isOrdinary_misfit

theorem ordinary_readUser : Ordinary (readUser w) := by
  unfold readUser
  split
  · exact .ok _
  · refine (ordinary_readSections _ _ _).andThen fun sections => ?_
    split
    · exact .ok _
    · exact .error (Fault.isOrdinary_settings _)

theorem ordinary_readProject : Ordinary (readProject w) := by
  unfold readProject
  split
  · exact .ok _
  · exact (ordinary_readSections _ _ _).map

theorem ordinary_resolveIn (flags : Flags) : Ordinary (resolveIn w flags) := by
  refine (ordinary_readUser w).andThen fun user => ?_
  exact (ordinary_readProject w).andThen fun project => ordinary_mapError_settings _

end Settings

end ApiContract
