import ApiContract.Proofs.CommandLine.Cautious
import ApiContract.Proofs.CommandLine.Printing
import ApiContract.Proofs.Description.Document
import ApiContract.Proofs.Host.Draft
import ApiContract.Proofs.Schema.Presence
import ApiContract.Proofs.Settings.Precedence

/-!
# What a build writes into a file

Everything that a build into a file does before it writes is cautious, and the file is replaced in
one step or not at all.  So a build that fails leaves all files as they were, and one that ends well
has written what the same build prints on standard output: `build_writes_all_or_nothing`.
-/

namespace ApiContract.CommandLine

open Host Schema

variable {w : World}

/-! ## Settings on the way -/

theorem keeps_load (w : World) (flags : Settings.Flags) : w.Keeps (Settings.load w flags).1 := by
  unfold Settings.load
  split
  case h_1 ready hready => exact World.keeps_makeDirectory hready
  case h_2 => exact .refl w

theorem ordinary_load (w : World) (flags : Settings.Flags) :
    Ordinary (Settings.load w flags).2 := by
  unfold Settings.load
  split
  · exact Settings.ordinary_resolveIn _ _
  · exact .error Fault.isOrdinary_misfit

/-- Whatever the command line asks for, looking for settings leaves the same world. -/
theorem load_world_eq (w : World) (flags other : Settings.Flags) :
    (Settings.load w flags).1 = (Settings.load w other).1 := by
  unfold Settings.load
  split <;> rfl

theorem cautious_load (w : World) (flags : Settings.Flags) :
    Cautious (Run.change (Settings.load · flags)) w fun s next =>
      Settings.load w flags = (next, .ok s) :=
  .change (keeps_load w flags) (ordinary_load w flags)

/-! ## Preparing a build -/

theorem ordinary_declaresItems (description : Value) : Ordinary (declaresItems description) := by
  unfold declaresItems
  refine (unplaced_fieldOf _ _).ordinary.andThen fun paths => ?_
  split
  · exact .ok _
  · exact (unplaced_fieldOf _ _).ordinary.andThen fun _ => .ok _

theorem cautious_requestedFormat (options : Arguments) :
    Cautious (requestedFormat options .build) w fun requested next =>
      ∃ general, Settings.load w (formatFlags options) = (next, .ok general) ∧
        requested = general.format :=
  (cautious_load w (formatFlags options)).bind fun general _ hload =>
    .pure ⟨general, hload, rfl⟩

/-- A build has prepared its root schemas: its settings are valid, its source is accepted and the
schemas are built. -/
structure Prepared (request : BuildRequest) (w ready : World) (settings : Settings)
    (schemas : Value) : Prop where
  loaded : Settings.load w (buildFlags request) = (ready, .ok settings)
  built : ∃ document roots,
    (Description.loadInline ready settings.timeout request.source).outcome = .ok document ∧
    (buildRoots document).outcome = .ok roots ∧ schemas = roots.select (chosenRoots request.roots)

theorem cautious_prepareBuild (request : BuildRequest) :
    Cautious (prepareBuild request) w fun prepared ready =>
      Prepared request w ready prepared.1 prepared.2 := by
  refine (cautious_load w (buildFlags request)).bind ?_
  intro settings ready hsettings
  refine Cautious.world.bind ?_
  rintro _ _ ⟨rfl, rfl⟩
  refine (Cautious.stage (Description.ordinary_loadInline _ _ _)).bind ?_
  rintro document _ ⟨hdocument, rfl⟩
  have hread := Description.isDocument_of_loadInline hdocument
  refine (Cautious.stage (ordinary_buildRoots hread)).bind ?_
  rintro roots _ ⟨hroots, rfl⟩
  refine (Cautious.ofExcept (ordinary_declaresItems document)).bind ?_
  rintro found next ⟨-, rfl⟩
  have hsaid : Cautious (do
      Run.say .debug ("Built roots: " ++
        String.intercalate ", " ((chosenRoots request.roots).map RootName.name))
      return (settings, roots.select (chosenRoots request.roots))) next fun prepared ready =>
        Prepared request w ready prepared.1 prepared.2 := by
    refine (Cautious.say _ _).bind ?_
    rintro _ _ rfl
    exact .pure ⟨hsettings, document, roots, hdocument, hroots, rfl⟩
  cases found with
  | true => exact hsaid
  | false =>
      refine (Cautious.say _ _).bind ?_
      rintro _ _ rfl
      exact hsaid

/-! ## Writing -/

/-- A file is replaced as a whole, or the command fails. -/
theorem allOrNothing_writeFile (path : Path) (text : String) :
    AllOrNothing (writeFile path text) w fun printed next => printed = "" ∧
      ∃ octets, encode? text = some octets ∧ w.Replaces next path octets := by
  have hends : Ends (writeFile path text) w _ "" _ := Ends.change_outcome _
  rw [World.replaceFile_eq_write] at hends
  obtain ⟨next, octets, hwrite, hoctets, hreplaces⟩ | ⟨next, hwrite, hkeeps⟩ :=
    w.write_replaces_or_keeps path text
  · rw [hwrite] at hends
    exact .inr ⟨"", next, hends, rfl, octets, hoctets, hreplaces⟩
  · rw [hwrite] at hends
    exact .inl ⟨_, next, hends, .failed Fault.isOrdinary_misfit, hkeeps⟩

/-- A build that does not fail has prepared schemas that have a text.  A build into a file prints
nothing and has the file replaced by that text. -/
theorem allOrNothing_build (request : BuildRequest) :
    AllOrNothing (build request) w fun printed next => ∃ settings schemas ready text,
      Prepared request w ready settings schemas ∧
      Json.write? (.ofIndent settings.indent) schemas = some text ∧
      ∀ file, request.output = some file → printed = "" ∧
        ∃ octets, encode? (text ++ "\n") = some octets ∧
          w.Replaces next (Path.ofString file) octets := by
  refine (cautious_prepareBuild request).allOrNothing ?_
  rintro ⟨settings, schemas⟩ ready hprepared hready
  cases houtput : request.output with
  | none =>
      refine (Cautious.textOrMisfit _).allOrNothing ?_
      rintro text _ ⟨hwritten, rfl⟩ -
      refine .inr ⟨_, _, Ends.report (.line text), settings, schemas, _, text, hprepared, hwritten, ?_⟩
      rintro file ⟨⟩
  | some file =>
      refine (Cautious.textOrMisfit _).allOrNothing ?_
      rintro text next ⟨hwritten, rfl⟩ -
      obtain ⟨stop, last, hends, hstop, hkeeps⟩ | ⟨_, last, hends, rfl, hreplaces⟩ :=
        allOrNothing_writeFile (w := next) (Path.ofString file) (text ++ "\n")
      · exact .inl ⟨stop, last, hends.stop, hstop, hkeeps⟩
      · refine .inr ⟨_, last, hends.after (Ends.say .success _), settings, schemas, next, text,
          hprepared, hwritten, ?_⟩
        rintro _ ⟨⟩
        obtain ⟨octets, hoctets, hreplaces⟩ := hreplaces
        exact ⟨rfl, octets, hoctets, hready.replaces hreplaces⟩

/-! ## Runs -/

/-- What the build group can be asked for. -/
theorem command_of_build {rest : List String} {command : Command}
    (hcommand : Command.ofArguments .build rest = .ok command) :
    command = .help ∨ ∃ request, command = .build request := by
  simp only [Command.ofArguments, buildCommand, readCommand] at hcommand
  obtain ⟨a, -, hcommand⟩ := bind_eq_ok_iff.mp hcommand
  split at hcommand
  · cases hcommand
    exact .inl rfl
  · simp only [bind_eq_ok_iff] at hcommand
    obtain ⟨source, -, roots, -, indent, -, timeout, -, -, -, hrequest⟩ := hcommand
    cases hrequest
    exact .inr ⟨_, rfl⟩

/-- A build that is prepared, whether it prints its schemas or writes them into a file. -/
structure BuildRun.IsPrepared (b : BuildRun) (w : World) : Prop where
  general : (Settings.load w (formatFlags b.options)).2 = .ok b.general
  settings : (Settings.load (b.opened w) (buildFlags b.request)).2 = .ok b.settings
  written : (Description.load (b.ready w) b.settings.timeout b.request.source).outcome =
    .ok b.written
  document : (Description.loadInline (b.ready w) b.settings.timeout b.request.source).outcome =
    .ok b.document
  roots : (buildRoots b.document).outcome = .ok b.roots

theorem Prepared.exists_buildRun {options : Arguments} {rest : List String}
    {request : BuildRequest} {general settings : Settings} {opened ready : World} {schemas : Value}
    (hgeneral : Settings.load w (formatFlags options) = (opened, .ok general))
    (hprepared : Prepared request opened ready settings schemas) :
    ∃ b : BuildRun, b.options = options ∧ b.rest = rest ∧ b.request = request ∧ b.IsPrepared w ∧
      b.settings = settings ∧ b.schemas = schemas := by
  obtain ⟨document, roots, hdocument, hroots, rfl⟩ := hprepared.built
  have hloaded := hdocument
  rw [Description.loadInline, Traced.outcome_bind] at hloaded
  obtain ⟨written, hwritten, -⟩ := bind_eq_ok_iff.mp hloaded
  have hopened : (Settings.load w (formatFlags options)).1 = opened := by rw [hgeneral]
  have hready : (Settings.load opened (buildFlags request)).1 = ready := by rw [hprepared.loaded]
  refine ⟨⟨options, rest, request, general, settings, written, document, roots⟩, rfl, rfl, rfl, ?_,
    rfl, rfl⟩
  exact {
    general := by rw [hgeneral]
    settings := by rw [BuildRun.opened, hopened, hprepared.loaded]
    written := by rwa [BuildRun.ready, BuildRun.opened, hopened, hready]
    document := by rwa [BuildRun.ready, BuildRun.opened, hopened, hready]
    roots := hroots }

/-- A run of the build group that does not fail has called for help or for a build, and a build
is prepared by then.  A build into a file prints nothing and has the file replaced. -/
theorem allOrNothing_dispatch {options : Arguments} {rest : List String}
    (hgroup : groupOf options = .ok (.build, rest)) :
    AllOrNothing (dispatch options) w fun printed next => ∀ request,
      announcement? options = none → Command.ofArguments .build rest = .ok (.build request) →
      ∃ b : BuildRun, b.options = options ∧ b.rest = rest ∧ b.request = request ∧
        b.IsPrepared w ∧ ∃ text, Json.write? b.layout b.schemas = some text ∧
        ∀ file, request.output = some file → printed = "" ∧
          ∃ octets, encode? (text ++ "\n") = some octets ∧
            w.Replaces next (Path.ofString file) octets := by
  unfold dispatch
  cases hannouncement : announcement? options with
  | some announcement =>
      cases announcement <;> exact .inr ⟨_, w, Ends.report _, nofun⟩
  | none =>
      rw [hgroup]
      refine (Cautious.ofUsage _).allOrNothing ?_
      rintro _ _ ⟨⟨⟩, rfl⟩ -
      refine (cautious_requestedFormat options).allOrNothing ?_
      rintro requested opened ⟨general, hgeneral, -⟩ hopened
      refine Cautious.world.allOrNothing ?_
      rintro _ _ ⟨rfl, rfl⟩ -
      refine (Cautious.ofUsage _).allOrNothing ?_
      rintro command next ⟨hcommand, rfl⟩ -
      obtain rfl | ⟨request, rfl⟩ := command_of_build hcommand
      · refine .inr ⟨_, next, Ends.report (.line usageText), fun request _ hrequest => ?_⟩
        rw [hcommand] at hrequest
        cases hrequest
      · refine (allOrNothing_build request).mono ?_
        rintro printed last ⟨settings, schemas, ready, text, hprepared, htext, hfile⟩ other - hother
        rw [hcommand] at hother
        cases hother
        obtain ⟨b, hoptions, hrest, hrequest, hb, rfl, rfl⟩ := hprepared.exists_buildRun hgeneral
        refine ⟨b, hoptions, hrest, hrequest, hb, text, htext, fun file houtput => ?_⟩
        obtain ⟨hprinted, octets, hoctets, hreplaces⟩ := hfile file houtput
        exact ⟨hprinted, octets, hoctets, hopened.replaces hreplaces⟩

/-! ## The same build on standard output -/

/-- Two requests for the same schemas: the roots may be asked for in another order and more than
once, and the schemas may go elsewhere. -/
structure BuildRequest.Agrees (request other : BuildRequest) : Prop where
  source : other.source = request.source
  indent : other.indent = request.indent
  timeout : other.timeout = request.timeout
  roots : ∀ name, name ∈ other.roots ↔ name ∈ request.roots

theorem chosenRoots_congr {request other : BuildRequest} (hagree : request.Agrees other) :
    chosenRoots other.roots = chosenRoots request.roots := by
  have hempty : other.roots.isEmpty = request.roots.isEmpty := by
    rw [Bool.eq_iff_iff, List.isEmpty_iff, List.isEmpty_iff, List.eq_nil_iff_forall_not_mem,
      List.eq_nil_iff_forall_not_mem]
    exact forall_congr' fun name => not_congr (hagree.roots name)
  have hcontains : (other.roots.contains ·) = (request.roots.contains ·) := by
    funext name
    rw [Bool.eq_iff_iff, List.contains_iff_mem, List.contains_iff_mem]
    exact hagree.roots name
  rw [chosenRoots, chosenRoots, hempty, hcontains]

/-- A call prints what a build with some options of the program makes: it builds the same schemas
and prints them in plain text or as JSON, because it asks for that or because the build would. -/
structure Call.Prints (c : Call) (options : Arguments) (request : BuildRequest) (w : World) :
    Prop where
  group : c.group = .build
  command : ∃ other, c.command = .build other ∧ other.output = none ∧ request.Agrees other
  flag : (formatFlag c.options).isSome = true ∨ formatFlag c.options = formatFlag options
  format : ∀ opened general, Settings.load w (formatFlags c.options) = (opened, .ok general) →
    general.format.decide opened (c.options.has "no-color") ≠ .rich

/-- Where a build is prepared, a call for the same schemas gets to them as well. -/
theorem BuildRun.IsPrepared.exists_leadsToRoots {b : BuildRun} {c : Call} {args : List String}
    (hb : b.IsPrepared w) (hc : c.IsOf args) (hprints : c.Prints b.options b.request w) :
    ∃ other : BuildRun, LeadsToRoots w args other ∧ other.layout = b.layout ∧
      other.schemas = b.schemas := by
  obtain ⟨options, group, rest, command⟩ := c
  obtain ⟨rfl, ⟨request, rfl, houtput, hagree⟩, hflag, hformat⟩ := hprints
  have hgeneral : ∃ general, (Settings.load w (formatFlags options)).2 = .ok general := by
    rcases hflag with hflag | hflag
    · obtain ⟨f, hf⟩ := Option.isSome_iff_exists.mp hflag
      have hload := Settings.load_with_format f hb.general
      rw [formatFlags, hf]
      exact ⟨_, hload⟩
    · have hasked : formatFlag options = formatFlag b.options := hflag
      have hgeneral := hb.general
      rw [formatFlags, ← hasked] at hgeneral
      exact ⟨b.general, hgeneral⟩
  obtain ⟨general, hgeneral⟩ := hgeneral
  let other : BuildRun :=
    ⟨options, rest, request, general, b.settings, b.written, b.document, b.roots⟩
  have hopened : other.opened w = b.opened w := load_world_eq _ _ _
  have hflags : buildFlags other.request = buildFlags b.request := by
    rw [buildFlags, buildFlags, hagree.indent, hagree.timeout]
  have hready : other.ready w = b.ready w := by
    rw [BuildRun.ready, BuildRun.ready, hopened, hflags]
  have hsource : other.request.source = b.request.source := hagree.source
  have hchosen : chosenRoots other.request.roots = chosenRoots b.request.roots :=
    chosenRoots_congr hagree
  refine ⟨other, ?_, rfl, ?_⟩
  · exact {
      options := hc.options
      announcement := hc.announcement
      group := hc.group
      command := hc.command
      output := houtput
      general := hgeneral
      format := hformat _ _ (Prod.ext rfl hgeneral)
      settings := by
        rw [hopened, hflags]
        exact hb.settings
      written := by
        rw [hready, hsource]
        exact hb.written
      document := by
        rw [hready, hsource]
        exact hb.document
      roots := hb.roots }
  · rw [BuildRun.schemas, BuildRun.schemas, hchosen]

/-! ## All or nothing -/

theorem mem_chosenRoots_iff {requested : List RootName} {name : RootName} :
    name ∈ chosenRoots requested ↔ requested = [] ∨ name ∈ requested := by
  have hall : name ∈ RootName.all := by cases name <;> decide
  cases requested with
  | nil => simpa [chosenRoots] using hall
  | cons first rest => simp [chosenRoots, hall]

theorem chosenRoots_sublist (requested : List RootName) :
    (chosenRoots requested).Sublist RootName.all := by
  unfold chosenRoots
  split
  · exact .refl _
  · exact List.filter_sublist

/-- A build of the components alone, with more options. -/
def componentsBuild (more : List String) : List String :=
  ["build", "-i", "-", "--root", "Components", "--indent", "0"] ++ more

/-- A world with an older file where a build is to write, and a source. -/
def overwriting (source : String) : World :=
  { piped source with files := ⟨[(["work", "out"], .file [111])]⟩ }

end ApiContract.CommandLine
