import ApiContract.Proofs.CommandLine.Output
import Mathlib.Data.List.Permutation

/-!
# A build tells of no absence

The builders of whole documents look only for what is listed, and what is listed is found.  So
neither they nor a run of the build group fail with an absence.  What a stage before them fails with
has another exit code, and so have arguments that are refused.
-/

namespace ApiContract.CommandLine

open Host Schema

variable {w : World} {args rest : List String} {options : Arguments}

/-- A command that fails with a stop that is no absence, or ends, does not exit as an absence
does. -/
theorem AllOrNothing.exitCode_ne_four {command : Run Unit} {post : String → World → Prop}
    {verbosity : Verbosity} (hcommand : AllOrNothing command w post) :
    (finish verbosity w command).exitCode ≠ 4 := by
  obtain ⟨stop, next, hends, hstop, -⟩ | ⟨text, next, hends, -⟩ := hcommand
  · exact (exitCode_finish_of_failure hends hstop).2
  · rw [hends.finish.1]
    decide

theorem exitCode_ne_four_of_group
    (hgroup : ∀ options, readArguments programOptions false args = .ok options →
      ∃ rest, groupOf options = .ok (.build, rest)) : (run w args).exitCode ≠ 4 := by
  unfold run
  split
  · exact (exitCode_finish_of_failure (Ends.throw _) (.misused _)).2
  · rename_i options hoptions
    obtain ⟨rest, hrest⟩ := hgroup options hoptions
    exact (allOrNothing_dispatch hrest).exitCode_ne_four

/-- In a document every listed member is found under its key, unless the key is null, and so is
every operation that is listed for it.  Building a tree or all roots of a document never fails with
an absence, and no run of the build group exits as an absence does. -/
theorem building_meets_no_absence {document : Value} (hdocument : document.IsDocument) :
    (∀ collection listed entry, items collection document = .ok listed → entry ∈ listed →
      entry.1.isNull = false →
      item collection document entry.1 = .ok entry.2 ∧
      ∀ names, methods entry.2 = .ok names → ∀ method ∈ names, ∃ declaration,
        operation collection document entry.1 (.str method) = .ok (entry.2, declaration) ∧
          fieldOf entry.2 method = .ok declaration) ∧
    (∀ collection fault, (buildTree collection document).outcome = .error fault →
      ¬ fault.IsAbsence) ∧
    (∀ fault, (buildRoots document).outcome = .error fault → ¬ fault.IsAbsence) ∧
    ∀ w args, (∀ options, readArguments programOptions false args = .ok options →
      ∃ rest, groupOf options = .ok (.build, rest)) → (run w args).exitCode ≠ 4 := by
  refine ⟨?_, ?_, ?_, fun w args => exitCode_ne_four_of_group⟩
  · intro collection listed entry hlisted hentry hpresent
    have hitem := item_of_mem_items hdocument hlisted hentry hpresent
    have hvalue := isDocument_of_mem_items hdocument hlisted hentry
    exact ⟨hitem, fun names hnames method hmethod =>
      operation_of_mem_methods hitem hvalue hnames hmethod⟩
  · intro collection fault hfails
    have hordinary := ordinary_buildTree collection hdocument
    rw [hfails] at hordinary
    cases hordinary with
    | error hfault => exact hfault.not_isAbsence
  · intro fault hfails
    have hordinary := ordinary_buildRoots hdocument
    rw [hfails] at hordinary
    cases hordinary with
    | error hfault => exact hfault.not_isAbsence

/-- A member with an operation and a summary. -/
def sevenFields : Entries := [(.str "get", .map []), (.str "summary", .str "x")]

/-- Members under a number and under null, and an extension. -/
def oddItems : Entries :=
  [(.int 7, .map sevenFields), (.null, .map []), (.str "x-note", .map [])]

def oddDocument : Value := .map [(.str "paths", .map oddItems)]

theorem isDocument_oddDocument : oddDocument.IsDocument := by
  have hempty : (Value.map []).IsDocument := .map Entries.isTable_nil nofun
  have hsummary : (Value.str "x").IsDocument := .atom nofun nofun nofun
  have hseven : (Value.map sevenFields).IsDocument := by
    refine .map ⟨by simp [sevenFields, Value.isKey], ?_⟩ ?_
    · simp [sevenFields, Entries.KeysDiffer, Entries.keys]
    · simp [sevenFields, hempty, hsummary]
  have hitems : (Value.map oddItems).IsDocument := by
    refine .map ⟨by simp [oddItems, Value.isKey], ?_⟩ ?_
    · simp [oddItems, Entries.KeysDiffer, Entries.keys, Value.same]
    · simp [oddItems, hempty, hseven]
  refine .map ⟨by simp [Value.isKey], ?_⟩ ?_
  · simp [Entries.KeysDiffer, Entries.keys]
  · simp [hitems]

theorem oddDocument_meets_no_absence :
    oddDocument.IsDocument ∧
      item .paths oddDocument (.int 7) = .ok (.map sevenFields) ∧
      (∃ declaration, operation .paths oddDocument (.int 7) (.str "get") =
        .ok (.map sevenFields, declaration)) ∧
      (∃ fault, (buildRoots oddDocument).outcome = .error fault ∧ ¬ fault.IsAbsence) ∧
      (run (piped bareText) ["build", "-i", "-"]).exitCode ≠ 4 := by
  obtain ⟨hlookup, -, hroots, hrun⟩ := building_meets_no_absence isDocument_oddDocument
  have hlisted : items .paths oddDocument = .ok (listedItems oddItems) := by cbv
  have hmem : ((.int 7, .map sevenFields) : Value × Value) ∈ listedItems oddItems := by
    simp [listedItems, oddItems, Value.isNull, isExtension]
  obtain ⟨hitem, hoperation⟩ := hlookup .paths _ _ hlisted hmem rfl
  have hnames : methods (.map sevenFields) = .ok ["get"] := by cbv
  obtain ⟨declaration, hfound, -⟩ := hoperation _ hnames "get" List.mem_cons_self
  have hbuilt : (buildRoots oddDocument).outcome.toOption.isNone = true := by decide +kernel
  obtain ⟨fault, hfails⟩ : ∃ fault, (buildRoots oddDocument).outcome = .error fault := by
    cases houtcome : (buildRoots oddDocument).outcome with
    | ok roots => simp [houtcome, Except.toOption] at hbuilt
    | error fault => exact ⟨fault, rfl⟩
  refine ⟨isDocument_oddDocument, hitem, ⟨declaration, hfound⟩, ⟨fault, hfails, hroots _ hfails⟩, ?_⟩
  refine hrun _ _ fun options hoptions => ?_
  have hread : readArguments programOptions false ["build", "-i", "-"] =
      .ok ⟨[], ["build", "-i", "-"]⟩ := by decide +kernel
  rw [hread] at hoptions
  cases hoptions
  exact ⟨["-i", "-"], by decide +kernel⟩

end ApiContract.CommandLine
