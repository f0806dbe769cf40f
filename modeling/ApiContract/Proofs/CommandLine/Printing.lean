import ApiContract.Proofs.CommandLine.Calls
import ApiContract.Proofs.Json.Source
import ApiContract.Proofs.Schema.RootEmission

/-!
# What a build prints

A build without a file to write ends with its root schemas on standard output, or with a failure
and nothing on standard output.  Which of the two is decided by the root schemas alone: by whether
they have a JSON text.  They have one whenever the description has, and so whenever the source is
JSON.  A description in YAML need not have one.
-/

namespace ApiContract.CommandLine

open Host Schema

/-- The root schemas come from a mapping, which can be asked for its collections. -/
theorem exists_declaresItems {document : Value} {roots : Roots}
    (hbuilt : (buildRoots document).outcome = .ok roots) :
    ∃ found, declaresItems document = .ok found := by
  simp only [buildRoots, Traced.outcome_bind, bind_eq_ok_iff] at hbuilt
  obtain ⟨-, -, -, -, token, htoken, -⟩ := hbuilt
  obtain ⟨es, entries, rfl, -, -⟩ := componentsToken_eq_ok_iff.mp htoken
  have hfield (name : String) : fieldOf (.map es) name = .ok (Entries.fieldD es name) := rfl
  rw [declaresItems, hfield, ok_bind, hfield, ok_bind]
  split <;> exact ⟨_, rfl⟩

/-! ## A build -/

/-- What the command line gives to the settings of a build. -/
def buildFlags (request : BuildRequest) : Settings.Flags :=
  ⟨indentFlag request.indent, .null, timeoutFlag request.timeout⟩

/-- What a build meets on its way: the options of the program and the arguments behind its first
word, the settings of the program and those of the build, and the description from its source to
its root schemas. -/
structure BuildRun where
  options : Arguments
  rest : List String
  request : BuildRequest
  general : Settings
  settings : Settings
  written : Value
  document : Value
  roots : Roots

namespace BuildRun

variable (b : BuildRun) (w : World)

/-- The world once the format is decided. -/
def opened : World := (Settings.load w (formatFlags b.options)).1

/-- The world that the source is read in. -/
def ready : World := (Settings.load (b.opened w) (buildFlags b.request)).1

def format : OutputFormat :=
  b.general.format.decide (b.opened w) (b.options.has "no-color")

def layout : Json.Layout := .ofIndent b.settings.indent

def call : Call := ⟨b.options, .build, b.rest, .build b.request⟩

/-- The root schemas that are asked for. -/
def schemas : Value := b.roots.select (chosenRoots b.request.roots)

/-- Whether the source is JSON. -/
def IsFromJson : Prop :=
  ∃ s, (Description.sourceText (b.ready w) b.settings.timeout b.request.source).outcome = .ok s ∧
    Description.IsJsonText s

end BuildRun

/-- A build to standard output that gets to its root schemas: its arguments and all settings are
valid, its source is accepted and the schemas are built. -/
structure LeadsToRoots (w : World) (args : List String) (b : BuildRun) : Prop where
  options : readArguments programOptions false args = .ok b.options
  announcement : announcement? b.options = none
  group : groupOf b.options = .ok (.build, b.rest)
  command : Command.ofArguments .build b.rest = .ok (.build b.request)
  output : b.request.output = none
  general : (Settings.load w (formatFlags b.options)).2 = .ok b.general
  format : b.format w ≠ .rich
  settings : (Settings.load (b.opened w) (buildFlags b.request)).2 = .ok b.settings
  written : (Description.load (b.ready w) b.settings.timeout b.request.source).outcome =
    .ok b.written
  document : (Description.loadInline (b.ready w) b.settings.timeout b.request.source).outcome =
    .ok b.document
  roots : (buildRoots b.document).outcome = .ok b.roots

/-- The build that arguments ask for, if it gets to its root schemas. -/
def buildRun? (w : World) (args : List String) : Option BuildRun := do
  let options ← (readArguments programOptions false args).toOption
  let (group, rest) ← (groupOf options).toOption
  match group, ← (Command.ofArguments group rest).toOption with
  | .build, .build request =>
      let (opened, general) := Settings.load w (formatFlags options)
      let general ← general.toOption
      let (ready, settings) := Settings.load opened (buildFlags request)
      let settings ← settings.toOption
      let written ← (Description.load ready settings.timeout request.source).outcome.toOption
      let document ←
        (Description.loadInline ready settings.timeout request.source).outcome.toOption
      let roots ← (buildRoots document).outcome.toOption
      let b : BuildRun := ⟨options, rest, request, general, settings, written, document, roots⟩
      if announcement? options = none ∧ request.output = none ∧ b.format w ≠ .rich then some b
      else none
  | _, _ => none

theorem leadsToRoots_of_buildRun? {w : World} {args : List String} {b : BuildRun}
    (hfound : buildRun? w args = some b) : LeadsToRoots w args b := by
  simp only [buildRun?, Option.bind_eq_bind, Option.bind_eq_some_iff, toOption_eq_some_iff] at hfound
  obtain ⟨options, hoptions, ⟨group, rest⟩, hgroup, command, hcommand, hfound⟩ := hfound
  dsimp only at hcommand hfound
  split at hfound
  · simp only [Option.bind_eq_some_iff, toOption_eq_some_iff] at hfound
    obtain ⟨general, hgeneral, settings, hsettings, written, hwritten, document, hdocument, roots,
      hroots, hfound⟩ := hfound
    split at hfound
    case isTrue hchecked =>
      obtain ⟨hannouncement, houtput, hformat⟩ := hchecked
      cases hfound
      exact { options := hoptions, announcement := hannouncement, group := hgroup,
              command := hcommand, output := houtput, general := hgeneral, format := hformat,
              settings := hsettings, written := hwritten, document := hdocument, roots := hroots }
    case isFalse => cases hfound
  · cases hfound

namespace LeadsToRoots

variable {w : World} {args : List String} {b : BuildRun} (h : LeadsToRoots w args b)
  {result : Except Stop Unit} {text : String} {last : World}

include h

theorem ends_prepareBuild :
    Ends (prepareBuild b.request) (b.opened w) (.ok (b.settings, b.schemas)) "" (b.ready w) := by
  obtain ⟨found, hfound⟩ := exists_declaresItems h.roots
  refine (Ends.change (Prod.ext rfl h.settings)).after ?_
  refine Ends.world.after ?_
  refine (Ends.stage h.document).after ?_
  refine (Ends.stage h.roots).after ?_
  refine (Ends.ofExcept hfound).after ?_
  have hbuilt : Ends (do
      Run.say .debug ("Built roots: " ++
        String.intercalate ", " ((chosenRoots b.request.roots).map RootName.name))
      return (b.settings, b.schemas)) (b.ready w) (.ok (b.settings, b.schemas)) "" (b.ready w) :=
    (Ends.report _).after (Ends.pure _)
  cases found with
  | true => exact hbuilt
  | false => exact Ends.after (Ends.report _) hbuilt

theorem ends_build (hprinted : Ends (Run.document b.layout b.schemas) (b.ready w) result text last) :
    Ends (build b.request) (b.opened w) result text last := by
  refine h.ends_prepareBuild.after ?_
  rw [h.output]
  exact hprinted

theorem isOf : b.call.IsOf args :=
  ⟨h.options, h.announcement, h.group, h.command⟩

theorem ends_dispatch
    (hprinted : Ends (Run.document b.layout b.schemas) (b.ready w) result text last) :
    Ends (dispatch b.options) w result text last := by
  have hrequested : Ends (requestedFormat b.options .build) w (.ok b.general.format) ""
      (b.opened w) :=
    Call.IsOf.ends_requestedFormat (c := b.call) nofun (Prod.ext rfl h.general)
  exact h.isOf.ends_dispatch hrequested (h.ends_build hprinted)

theorem run_eq : run w args = finish (verbosityOf b.options) w (dispatch b.options) :=
  h.isOf.run_eq w

theorem isJson_schemas (hwritten : b.written.isJson = true) : b.schemas.isJson = true :=
  isJson_of_buildRoots (Description.isJson_of_loadInline h.written h.document hwritten) h.roots _

end LeadsToRoots

/-- A world with a text on standard input. -/
def piped (text : String) : World :=
  { files := .empty, cwd := ["work"], environment := [("HOME", "/home/user")], platform := "Linux",
    replies := [], stdin := text, isTerminal := false, stamp := "0" }

/-- A description without anything in it. -/
def bareText : String := "\x7b\"openapi\": \"3.0.0\", \"paths\": \x7b\x7d\x7d"

/-- A description in YAML with a date for a default. -/
def datedText : String :=
  "openapi: 3.0.0\npaths: \x7b\x7d\ncomponents:\n  schemas:\n    D: \x7bdefault: 2020-01-01\x7d\n"

end ApiContract.CommandLine
