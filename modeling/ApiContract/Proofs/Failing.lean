import ApiContract.Schema.Declared
import ApiContract.Traced

/-!
# What stages fail with

Stages fail in order: a sequence fails with what one of its stages fails with.  So what holds of
the failures of every stage holds of those of the whole.  The exit code of a failure is never zero,
unless the failure states that for itself; it is four for an absence, for something that is looked
for in a description that does not have it, and for nothing else.
-/

namespace ApiContract

/-- Whatever a stage fails with has a property. -/
inductive FailsOnly {α : Type} (P : Fault → Prop) : Except Fault α → Prop where
  | ok (a : α) : FailsOnly P (.ok a)
  | error {fault : Fault} (hfault : P fault) : FailsOnly P (.error fault)

section Laws

variable {α β : Type} {P Q : Fault → Prop} {x : Except Fault α}

theorem FailsOnly.mono (hx : FailsOnly P x) (himp : ∀ fault, P fault → Q fault) :
    FailsOnly Q x := by
  cases hx with
  | ok a => exact .ok a
  | error hfault => exact .error (himp _ hfault)

theorem FailsOnly.bind {f : α → Except Fault β} (hx : FailsOnly P x)
    (hf : ∀ a, x = .ok a → FailsOnly P (f a)) : FailsOnly P (x >>= f) := by
  cases hx with
  | ok a => exact hf a rfl
  | error hfault => exact .error hfault

theorem FailsOnly.andThen {f : α → Except Fault β} (hx : FailsOnly P x)
    (hf : ∀ a, FailsOnly P (f a)) : FailsOnly P (x >>= f) :=
  hx.bind fun a _ => hf a

theorem FailsOnly.map {f : α → β} (hx : FailsOnly P x) : FailsOnly P (x.map f) := by
  cases hx with
  | ok a => exact .ok (f a)
  | error hfault => exact .error hfault

theorem FailsOnly.mapError {f : Fault → Fault} (hx : FailsOnly P x)
    (hf : ∀ fault, P fault → Q (f fault)) : FailsOnly Q (x.mapError f) := by
  cases hx with
  | ok a => exact .ok a
  | error hfault => exact .error (hf _ hfault)

/-- A stage that is refused under a condition. -/
theorem failsOnly_guard {b : Bool} {f : β → Except Fault α} {fault : Fault} (hfault : P fault)
    (hrest : FailsOnly P x) : FailsOnly P (if b = true then throw fault >>= f else x) := by
  cases b with
  | false => exact hrest
  | true => exact .error hfault

theorem failsOnly_stage_guard {b : Bool} {f : β → Traced Fault α} {t : Traced Fault α}
    {fault : Fault} (hfault : P fault) (hrest : FailsOnly P t.outcome) :
    FailsOnly P (if b = true then Traced.fail fault >>= f else t).outcome := by
  cases b with
  | false => exact hrest
  | true => exact .error hfault

theorem failsOnly_orMisfit (hmisfit : P .misfit) (found : Option α) :
    FailsOnly P (Schema.orMisfit found) := by
  cases found with
  | none => exact .error hmisfit
  | some a => exact .ok a

end Laws

/-! ## Exit codes -/

namespace Family

theorem exitCode_ne_zero (family : Family) : family.exitCode ≠ 0 := by
  cases family <;> decide

/-- Whether failures of a family tell of something that the description does not have. -/
def isAbsence (family : Family) : Bool := family.kind? == some .structuralAbsence

theorem exitCode_eq_four_iff {family : Family} : family.exitCode = 4 ↔ family.isAbsence = true := by
  cases family <;> decide

end Family

namespace Fault

/-- A failure that tells of something that the description does not have. -/
def IsAbsence (fault : Fault) : Prop :=
  ∃ family, fault.family? = some family ∧ family.isAbsence = true

theorem IsAbsence.exitCode_eq {fault : Fault} (habsence : fault.IsAbsence) : fault.exitCode = 4 := by
  obtain ⟨family, hfamily, habsence⟩ := habsence
  have hcode : family.exitCode = 4 := Family.exitCode_eq_four_iff.mpr habsence
  cases fault with
  | misfit => cases hfamily
  | stated given text code =>
      obtain rfl : given = family := Option.some.inj hfamily
      cases code with
      | none => exact hcode
      | some code =>
          have hbuild : given.isBuild = true := by
            cases given <;> first | rfl | cases habsence
          rw [exitCode, if_pos hbuild, hcode]
  | _ =>
      obtain rfl := Option.some.inj hfamily
      exact hcode

/-- A failure whose exit code tells it from success and from an absence. -/
def IsOrdinary (fault : Fault) : Prop := fault.exitCode ≠ 0 ∧ fault.exitCode ≠ 4

theorem IsOrdinary.not_isAbsence {fault : Fault} (hfault : fault.IsOrdinary) : ¬ fault.IsAbsence :=
  fun habsence => hfault.2 habsence.exitCode_eq

/-- A failure that exits as those of its family do. -/
theorem isOrdinary_of_family {fault : Fault} (family : Family)
    (hcode : fault.exitCode = family.exitCode) (hfamily : family.isAbsence = false) :
    fault.IsOrdinary := by
  refine ⟨hcode ▸ family.exitCode_ne_zero, fun hfour => ?_⟩
  rw [hcode, Family.exitCode_eq_four_iff, hfamily] at hfour
  cases hfour

theorem isOrdinary_misfit : IsOrdinary .misfit := isOrdinary_of_family .general rfl rfl

theorem isOrdinary_build {e : BuildError} (hcause : e.cause.family.isAbsence = false) :
    IsOrdinary (.build e) :=
  isOrdinary_of_family e.cause.family rfl hcause

theorem isOrdinary_ofBuild {e : BuildError} (hcause : e.cause.family.isAbsence = false) :
    IsOrdinary (.ofBuild e) := by
  unfold ofBuild
  split
  · exact isOrdinary_build hcause
  · exact isOrdinary_misfit

theorem isOrdinary_source (e : SourceError) : IsOrdinary (.source e) :=
  isOrdinary_of_family .source rfl rfl

theorem isOrdinary_settings (e : SettingsError) : IsOrdinary (.settings e) :=
  isOrdinary_of_family .settings rfl rfl

theorem isOrdinary_references (failures : List Reference.Failure) :
    IsOrdinary (.references failures) :=
  isOrdinary_of_family .references rfl rfl

/-- A failure stays ordinary when its place is filled in. -/
theorem IsOrdinary.locate {fault : Fault} (hfault : fault.IsOrdinary) (path method : Value) :
    (fault.locate path method).IsOrdinary := by
  cases fault with
  | build e =>
      refine isOrdinary_ofBuild (Bool.eq_false_iff.mpr fun habsence => ?_)
      exact hfault.2 (Family.exitCode_eq_four_iff.mpr habsence)
  | _ => exact hfault

end Fault

/-- A stage none of whose failures passes for success or for an absence. -/
abbrev Ordinary {α : Type} (x : Except Fault α) : Prop := FailsOnly Fault.IsOrdinary x

theorem ordinary_orMisfit {α : Type} (found : Option α) : Ordinary (Schema.orMisfit found) :=
  failsOnly_orMisfit Fault.isOrdinary_misfit found

end ApiContract
