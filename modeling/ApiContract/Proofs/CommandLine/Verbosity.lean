import ApiContract.CommandLine.Program
import ApiContract.Proofs.CommandLine.Printing
import Mathlib.Data.List.TakeWhile

/-!
# Verbosity touches no data

What a run is asked to hide and to show stands among the options of the program.  The command never
looks at it: it is handed to the console, which lets it decide about messages and notes, and these
go to standard error.

The main statement: two runs in the same world whose arguments differ in nothing but these switches
report the same events, and leave the same standard output, the same exit code and the same files.
-/

namespace ApiContract.CommandLine

open Host

/-! ## The switches -/

/-- Whether an option says what to hide or what to show. -/
def isVerbosityName (name : String) : Bool := name == "quiet" || name == "verbose"

/-- Whether a letter stands for such an option. -/
def isVerbosityLetter (letter : Char) : Bool := letter == 'q' || letter == 'v'

/-- Whether an argument is made of such options alone: one by its name, or a row of letters. -/
def isVerbositySwitch (argument : String) : Bool :=
  match argument.toList with
  | '-' :: '-' :: name => isVerbosityName (String.ofList name)
  | '-' :: letter :: letters => (letter :: letters).all isVerbosityLetter
  | _ => false

/-- Arguments without these switches.  The options of the program end at the first word, or at two
bare dashes; what follows belongs to the command and stays. -/
def withoutVerbosity : List String → List String
  | [] => []
  | argument :: rest =>
      if isVerbositySwitch argument then withoutVerbosity rest
      else if argument == "--" || !isOption argument then argument :: rest
      else argument :: withoutVerbosity rest

/-- Options without those of verbosity. -/
def Arguments.hushed (a : Arguments) : Arguments :=
  { a with options := a.options.filter fun o => !isVerbosityName o.1 }

/-! ## Reading arguments without them -/

/-- No option of the program takes a value, so none waits for the next argument. -/
theorem takesValue_eq_false {spec : OptionSpec} (hspec : spec ∈ programOptions) :
    spec.takesValue = false := by
  revert spec
  decide

/-- The letters of the program are those of the switches of verbosity. -/
theorem isVerbosity_of_letter {spec : OptionSpec} {letter : Char}
    (hspec : spec ∈ programOptions) (hletter : spec.letter = some letter) :
    isVerbosityLetter letter = true ∧ isVerbosityName spec.name = true := by
  have hspecs : ∀ spec ∈ programOptions, spec.letter = none ∨
      spec.letter = some 'q' ∧ spec.name = "quiet" ∨
      spec.letter = some 'v' ∧ spec.name = "verbose" := by decide
  rcases hspecs spec hspec with hnone | ⟨hsome, hname⟩ | ⟨hsome, hname⟩
  · simp [hnone] at hletter
  · obtain rfl : 'q' = letter := by simpa [hsome] using hletter
    exact ⟨rfl, by rw [hname]; rfl⟩
  · obtain rfl : 'v' = letter := by simpa [hsome] using hletter
    exact ⟨rfl, by rw [hname]; rfl⟩

theorem exists_spec_of_letter {letter : Char} (hletter : isVerbosityLetter letter = true) :
    ∃ spec, programOptions.find? (·.letter == some letter) = some spec := by
  have hcases : letter = 'q' ∨ letter = 'v' := by simpa [isVerbosityLetter] using hletter
  rcases hcases with rfl | rfl
  · exact ⟨switch "quiet" (some 'q'), by decide⟩
  · exact ⟨switch "verbose" (some 'v'), by decide⟩

theorem readLetters_cons_eq_ok_iff {letter : Char} {rest : List Char} {step : Step} :
    readLetters programOptions (letter :: rest) = .ok step ↔
      ∃ spec others, programOptions.find? (·.letter == some letter) = some spec ∧
        readLetters programOptions rest = .ok others ∧
        step = { others with options := (spec.name, "") :: others.options } := by
  rw [readLetters]
  cases hfind : programOptions.find? (·.letter == some letter) with
  | none => simp
  | some spec =>
      have hvalue := takesValue_eq_false (List.mem_of_find?_eq_some hfind)
      cases readLetters programOptions rest with
      | error e => simp [hvalue, bind, Except.bind]
      | ok others => simp [hvalue, bind, Except.bind, eq_comm]

/-- A row of letters is read exactly if it is made of switches of verbosity. -/
theorem readLetters_eq_ok_iff {letters : List Char} :
    (∃ step, readLetters programOptions letters = .ok step) ↔
      letters.all isVerbosityLetter = true := by
  induction letters with
  | nil => exact ⟨fun _ => rfl, fun _ => ⟨_, rfl⟩⟩
  | cons letter rest ih =>
      rw [List.all_cons, Bool.and_eq_true, ← ih]
      constructor
      · rintro ⟨step, hread⟩
        obtain ⟨spec, others, hfind, hrest, -⟩ := readLetters_cons_eq_ok_iff.mp hread
        have hletter : spec.letter = some letter := by simpa using List.find?_some hfind
        have hspec := List.mem_of_find?_eq_some hfind
        exact ⟨(isVerbosity_of_letter hspec hletter).1, others, hrest⟩
      · rintro ⟨hletter, others, hrest⟩
        obtain ⟨spec, hfind⟩ := exists_spec_of_letter hletter
        exact ⟨_, readLetters_cons_eq_ok_iff.mpr ⟨spec, others, hfind, hrest, rfl⟩⟩

/-- What is read from a row of letters is all about verbosity. -/
theorem names_of_readLetters {letters : List Char} {step : Step}
    (hread : readLetters programOptions letters = .ok step) :
    step.pending = none ∧ ∀ o ∈ step.options, isVerbosityName o.1 = true := by
  induction letters generalizing step with
  | nil =>
      cases hread
      simp
  | cons letter rest ih =>
      obtain ⟨spec, others, hfind, hrest, rfl⟩ := readLetters_cons_eq_ok_iff.mp hread
      have hletter : spec.letter = some letter := by simpa using List.find?_some hfind
      have hname := (isVerbosity_of_letter (List.mem_of_find?_eq_some hfind) hletter).2
      obtain ⟨hpending, hnames⟩ := ih hrest
      exact ⟨hpending, List.forall_mem_cons.mpr ⟨hname, hnames⟩⟩

theorem isVerbositySwitch_of_name {argument : String} {name : List Char}
    (hargument : argument.toList = '-' :: '-' :: name) :
    isVerbositySwitch argument = isVerbosityName (String.ofList name) := by
  simp [isVerbositySwitch, hargument]

theorem isVerbositySwitch_of_letters {argument : String} {letter : Char} {letters : List Char}
    (hargument : argument.toList = '-' :: letter :: letters) (hdash : letter ≠ '-') :
    isVerbositySwitch argument = (letter :: letters).all isVerbosityLetter := by
  simp [isVerbositySwitch, hargument]

/-- A long option of the program is read only if it is one of them and brings no value along. -/
theorem readOption_name_eq_ok_iff {body : List Char} {step : Step} :
    readOption programOptions ('-' :: body) = .ok step ↔
      body.contains '=' = false ∧
        (programOptions.find? (·.name == String.ofList body)).isSome = true ∧
          step = ⟨[(String.ofList body, "")], none⟩ := by
  by_cases hvalue : body.contains '=' = true
  · simp only [readOption, hvalue, if_true]
    split
    · rename_i spec hfind
      simp [readLong, takesValue_eq_false (List.mem_of_find?_eq_some hfind)]
    · simp
  · rw [Bool.not_eq_true] at hvalue
    have hname : body.takeWhile (· != '=') = body := by
      apply List.takeWhile_eq_self_iff.mpr
      intro c hc
      rw [bne_iff_ne]
      rintro rfl
      simp [hc] at hvalue
    simp only [readOption, hvalue, hname, true_and]
    split
    · rename_i spec hfind
      have hspec : spec.name = String.ofList body := by simpa using List.find?_some hfind
      rw [hfind]
      simp [readLong, takesValue_eq_false (List.mem_of_find?_eq_some hfind), hspec, eq_comm]
    · rename_i hfind
      rw [hfind]
      simp

theorem readOption_letters {letter : Char} {letters : List Char} (hdash : letter ≠ '-') :
    readOption programOptions (letter :: letters) =
      readLetters programOptions (letter :: letters) := by
  rw [readOption]
  intro body heq
  exact hdash (List.cons.inj heq).1

/-- An option of the program waits for no value.  What is read from it is about verbosity if it is a
switch of verbosity, and about something else otherwise. -/
theorem of_readOption {argument : String} {step : Step} (hoption : isOption argument = true)
    (hread : readOption programOptions (argument.toList.drop 1) = .ok step) :
    step.pending = none ∧
      ∀ o ∈ step.options, isVerbosityName o.1 = isVerbositySwitch argument := by
  unfold isOption at hoption
  split at hoption
  · rename_i letter letters hargument
    rw [hargument, List.drop_one, List.tail_cons] at hread
    by_cases hdash : letter = '-'
    · subst hdash
      obtain ⟨-, -, rfl⟩ := readOption_name_eq_ok_iff.mp hread
      rw [isVerbositySwitch_of_name hargument]
      simp
    · rw [readOption_letters hdash] at hread
      obtain ⟨hpending, hnames⟩ := names_of_readLetters hread
      rw [isVerbositySwitch_of_letters hargument hdash,
        readLetters_eq_ok_iff.mp ⟨step, hread⟩]
      exact ⟨hpending, hnames⟩
  · cases hoption

/-- A switch of verbosity is an option, and it is read. -/
theorem exists_readOption {argument : String} (hswitch : isVerbositySwitch argument = true) :
    isOption argument = true ∧ argument ≠ "--" ∧
      ∃ step, readOption programOptions (argument.toList.drop 1) = .ok step := by
  have hne : argument ≠ "--" := by
    rintro rfl
    revert hswitch
    decide
  unfold isVerbositySwitch at hswitch
  split at hswitch
  · rename_i name hargument
    have hname : String.ofList name = "quiet" ∨ String.ofList name = "verbose" := by
      simpa [isVerbosityName] using hswitch
    refine ⟨by simp [isOption, hargument], hne, ⟨[(String.ofList name, "")], none⟩, ?_⟩
    rw [hargument, List.drop_one, List.tail_cons]
    refine readOption_name_eq_ok_iff.mpr ⟨?_, ?_, rfl⟩
    · rcases hname with hname | hname
      · rw [← String.toList_ofList (l := name), hname]
        decide
      · rw [← String.toList_ofList (l := name), hname]
        decide
    · rcases hname with hname | hname
      · rw [hname]
        decide
      · rw [hname]
        decide
  · rename_i letter letters hnot hargument
    have hdash : letter ≠ '-' := fun heq => hnot heq
    obtain ⟨step, hread⟩ := readLetters_eq_ok_iff.mpr hswitch
    refine ⟨by simp [isOption, hargument], hne, step, ?_⟩
    rw [hargument, List.drop_one, List.tail_cons, readOption_letters hdash]
    exact hread
  · cases hswitch

theorem filter_verbosity_of_switch {argument : String} {step : Step}
    (hswitch : isVerbositySwitch argument = true)
    (hnames : ∀ o ∈ step.options, isVerbosityName o.1 = isVerbositySwitch argument) :
    step.options.filter (fun o => !isVerbosityName o.1) = [] := by
  rw [List.filter_eq_nil_iff]
  intro o ho
  simp [hnames o ho, hswitch]

theorem filter_verbosity_of_other {argument : String} {step : Step}
    (hswitch : isVerbositySwitch argument = false)
    (hnames : ∀ o ∈ step.options, isVerbosityName o.1 = isVerbositySwitch argument) :
    step.options.filter (fun o => !isVerbosityName o.1) = step.options := by
  rw [List.filter_eq_self]
  intro o ho
  simp [hnames o ho, hswitch]

theorem readArguments_option {argument : String} (rest : List String)
    (hoption : isOption argument = true) (hne : argument ≠ "--") :
    readArguments programOptions false (argument :: rest) =
      (readOption programOptions (argument.toList.drop 1)).bind fun step =>
        (readArguments programOptions false rest).map (Arguments.addOptions step.options) := by
  rw [readArguments, if_neg (by simpa using hne), if_pos hoption]
  cases hread : readOption programOptions (argument.toList.drop 1) with
  | error e => rfl
  | ok step =>
      obtain ⟨hpending, -⟩ := of_readOption hoption hread
      obtain ⟨found, pending⟩ := step
      obtain rfl : pending = none := hpending
      rfl

/-- Without the switches of verbosity the same arguments are read, less these options. -/
theorem readArguments_withoutVerbosity (args : List String) :
    readArguments programOptions false (withoutVerbosity args) =
      (readArguments programOptions false args).map Arguments.hushed := by
  induction args with
  | nil => rfl
  | cons argument rest ih =>
      rw [withoutVerbosity]
      by_cases hswitch : isVerbositySwitch argument = true
      · obtain ⟨hoption, hne, step, hread⟩ := exists_readOption hswitch
        have hnone := filter_verbosity_of_switch hswitch (of_readOption hoption hread).2
        rw [if_pos hswitch, ih, readArguments_option rest hoption hne, hread]
        cases readArguments programOptions false rest with
        | error e => rfl
        | ok a => simp [Except.map, Except.bind, Arguments.hushed, Arguments.addOptions, hnone]
      · rw [if_neg hswitch]
        rw [Bool.not_eq_true] at hswitch
        by_cases hplain : argument == "--" || !isOption argument
        · rw [if_pos hplain]
          simp only [Bool.or_eq_true, beq_iff_eq, Bool.not_eq_true'] at hplain
          rcases hplain with rfl | hword
          · rfl
          · by_cases hend : argument = "--"
            · subst hend
              rfl
            · simp [readArguments, hend, hword, Except.map, Arguments.hushed]
        · rw [if_neg hplain]
          simp only [Bool.or_eq_true, beq_iff_eq, Bool.not_eq_true', not_or,
            Bool.not_eq_false] at hplain
          obtain ⟨hne, hoption⟩ := hplain
          rw [readArguments_option _ hoption hne, readArguments_option _ hoption hne, ih]
          cases hread : readOption programOptions (argument.toList.drop 1) with
          | error e => rfl
          | ok step =>
              have hall := filter_verbosity_of_other hswitch (of_readOption hoption hread).2
              cases readArguments programOptions false rest with
              | error e => rfl
              | ok a => simp [Except.map, Except.bind, Arguments.hushed, Arguments.addOptions, hall]

/-! ## What a run reports -/

theorem has_hushed (a : Arguments) (name : String) (hname : isVerbosityName name = false) :
    a.hushed.has name = a.has name := by
  rw [Bool.eq_iff_iff]
  simp only [Arguments.has, Arguments.hushed, List.any_eq_true, List.mem_filter]
  constructor
  · rintro ⟨o, ⟨ho, -⟩, hequal⟩
    exact ⟨o, ho, hequal⟩
  · rintro ⟨o, ho, hequal⟩
    refine ⟨o, ⟨ho, ?_⟩, hequal⟩
    rw [beq_iff_eq.mp hequal, hname]
    rfl

theorem announcement?_hushed (a : Arguments) : announcement? a.hushed = announcement? a := by
  obtain ⟨options, words⟩ := a
  unfold announcement? Arguments.hushed
  dsimp only
  induction options with
  | nil => rfl
  | cons o rest ih =>
      by_cases hname : isVerbosityName o.1 = true
      · have hcases : o.1 = "quiet" ∨ o.1 = "verbose" := by simpa [isVerbosityName] using hname
        rw [List.filter_cons_of_neg (by simp [hname]), ih, List.findSome?_cons]
        rcases hcases with heq | heq <;> simp [heq]
      · rw [List.filter_cons_of_pos (by simpa using hname), List.findSome?_cons,
          List.findSome?_cons, ih]

/-- A command never looks at its verbosity. -/
theorem dispatch_hushed (a : Arguments) : dispatch a.hushed = dispatch a := by
  have hformat : formatFlag a.hushed = formatFlag a := by
    simp only [formatFlag, has_hushed a "json" rfl, has_hushed a "plain" rfl]
  unfold dispatch requestedFormat
  rw [announcement?_hushed, hformat, has_hushed a "no-color" rfl]
  rfl

/-- What a run is asked to do. -/
def requestOf (args : List String) : Run Unit :=
  match readArguments programOptions false args with
  | .error e => throw (.misused e)
  | .ok options => dispatch options

/-- What a run is asked to hide and to show. -/
def verbosityIn (args : List String) : Verbosity :=
  match readArguments programOptions false args with
  | .error _ => .normal
  | .ok options => verbosityOf options

theorem run_eq_finish (w : World) (args : List String) :
    run w args = finish (verbosityIn args) w (requestOf args) := by
  unfold run verbosityIn requestOf
  cases readArguments programOptions false args <;> rfl

/-- The switches of verbosity do not change what a run is asked to do. -/
theorem requestOf_withoutVerbosity (args : List String) :
    requestOf (withoutVerbosity args) = requestOf args := by
  unfold requestOf
  rw [readArguments_withoutVerbosity]
  cases readArguments programOptions false args with
  | error e => rfl
  | ok options => exact dispatch_hushed options

/-- What a command has reported and done when it has stopped, and its exit code. -/
def settled (w : World) (command : Run Unit) : Session × Nat :=
  match StateT.run (ExceptT.run command) ⟨w, []⟩ with
  | (.ok (), session) => (session, 0)
  | (.error stop, session) => close stop session

/-- Verbosity decides about standard error and about nothing else. -/
theorem finish_eq (verbosity : Verbosity) (w : World) (command : Run Unit) :
    let s := settled w command
    (finish verbosity w command).exitCode = s.2 ∧
      (finish verbosity w command).output = outputOf s.1.events ∧
      (finish verbosity w command).errors = errorsOf verbosity s.1.events ∧
      (finish verbosity w command).world = s.1.world := by
  unfold settled finish
  rcases StateT.run (ExceptT.run command) ⟨w, []⟩ with ⟨_ | _, session⟩ <;> exact ⟨rfl, rfl, rfl, rfl⟩

/-- Whether an event is data. -/
def isData : Event → Bool
  | .data _ => true
  | _ => false

/-- Messages and notes write nothing to standard output. -/
theorem outputOf_filter_isData (events : List Event) :
    outputOf (events.filter isData) = outputOf events := by
  induction events with
  | nil => rfl
  | cons e rest ih =>
      rw [← List.singleton_append, List.filter_append, outputOf_append, outputOf_append, ih]
      cases e <;> rfl

theorem errorsOf_cons (verbosity : Verbosity) (e : Event) (rest : List Event) :
    errorsOf verbosity (e :: rest) = e.onError verbosity ++ errorsOf verbosity rest := by
  rw [errorsOf, List.map_cons, ← List.singleton_append, String.join_append]
  simp [errorsOf, String.join]

/-- Data writes nothing to standard error. -/
theorem errorsOf_filter_not_isData (verbosity : Verbosity) (events : List Event) :
    errorsOf verbosity (events.filter fun e => !isData e) = errorsOf verbosity events := by
  induction events with
  | nil => rfl
  | cons e rest ih =>
      cases e with
      | data text =>
          rw [List.filter_cons_of_neg (by simp [isData]), ih, errorsOf_cons, Event.onError,
            String.empty_append]
      | message kind text =>
          rw [List.filter_cons_of_pos (by simp [isData]), errorsOf_cons, errorsOf_cons, ih]
      | note n =>
          rw [List.filter_cons_of_pos (by simp [isData]), errorsOf_cons, errorsOf_cons, ih]

/-- Runs of one world whose arguments differ in the switches of verbosity alone report the same
events.  Their standard output, their exit code and the files that they leave are the same.  Data
alone goes to standard output, and messages and notes go to standard error. -/
theorem run_ignores_verbosity (w : World) {left right : List String}
    (hsame : withoutVerbosity left = withoutVerbosity right) :
    (run w left).exitCode = (run w right).exitCode ∧
      (run w left).output = (run w right).output ∧
      (run w left).world = (run w right).world ∧
      ∃ events : List Event,
        (run w left).output = outputOf (events.filter isData) ∧
        (run w left).errors = errorsOf (verbosityIn left) (events.filter fun e => !isData e) ∧
        (run w right).errors = errorsOf (verbosityIn right) (events.filter fun e => !isData e) := by
  have hrequest : requestOf left = requestOf right := by
    rw [← requestOf_withoutVerbosity left, hsame, requestOf_withoutVerbosity]
  obtain ⟨hleftCode, hleftOutput, hleftErrors, hleftWorld⟩ :=
    finish_eq (verbosityIn left) w (requestOf left)
  obtain ⟨hrightCode, hrightOutput, hrightErrors, hrightWorld⟩ :=
    finish_eq (verbosityIn right) w (requestOf right)
  rw [← hrequest] at hrightCode hrightOutput hrightErrors hrightWorld
  rw [run_eq_finish, run_eq_finish, ← hrequest]
  refine ⟨hleftCode.trans hrightCode.symm, hleftOutput.trans hrightOutput.symm,
    hleftWorld.trans hrightWorld.symm, (settled w (requestOf left)).1.events, ?_, ?_, ?_⟩
  · rw [hleftOutput, outputOf_filter_isData]
  · rw [hleftErrors, errorsOf_filter_not_isData]
  · rw [hrightErrors, errorsOf_filter_not_isData]

/-- A build of a description without path items, which warns, first with much and then with little
to show. -/
theorem warnedBuild_ignores_verbosity :
    withoutVerbosity ["-vv", "--plain", "build", "-i", "-"] =
        withoutVerbosity ["--plain", "--quiet", "build", "-i", "-"] ∧
      (run (piped bareText) ["-vv", "--plain", "build", "-i", "-"]).exitCode =
        (run (piped bareText) ["--plain", "--quiet", "build", "-i", "-"]).exitCode ∧
      (run (piped bareText) ["-vv", "--plain", "build", "-i", "-"]).output =
        (run (piped bareText) ["--plain", "--quiet", "build", "-i", "-"]).output ∧
      (run (piped bareText) ["-vv", "--plain", "build", "-i", "-"]).errors ≠
        (run (piped bareText) ["--plain", "--quiet", "build", "-i", "-"]).errors := by
  have hsame : withoutVerbosity ["-vv", "--plain", "build", "-i", "-"] =
      withoutVerbosity ["--plain", "--quiet", "build", "-i", "-"] := by decide
  obtain ⟨hcode, houtput, -⟩ := run_ignores_verbosity (piped bareText) hsame
  exact ⟨hsame, hcode, houtput, by decide +kernel⟩

end ApiContract.CommandLine
