import ApiContract.CommandLine.Configure
import ApiContract.CommandLine.Inspect

/-!
# The program

A run reads the options of the program, decides the output format, reads the command and performs
it.  Commands for settings decide the format without looking at any settings, so that broken
settings can be shown and reset.
-/

namespace ApiContract.CommandLine

open Host

def programName : String := "specshape"

def programVersion : String := "0.1.0"

/-- How to call the program. -/
def usageText : String :=
  s!"Usage: {programName} [OPTIONS] COMMAND [ARGS]...\n\n" ++
  "Commands:\n" ++
  "  build               Generate the root schemas of a description.\n" ++
  "  inspect operations  List every operation with its branch counts.\n" ++
  "  inspect components  List the component kinds with their members.\n" ++
  "  config show         Print the effective settings.\n" ++
  "  config set          Change one setting of the user.\n" ++
  "  config reset        Overwrite the user's settings with the defaults."

/-- What the program options ask for at once, instead of a command. -/
inductive Announcement where
  | version
  | help
  deriving DecidableEq, Repr

/-- The first announcement that is asked for. -/
def announcement? (options : Arguments) : Option Announcement :=
  options.options.findSome? fun o =>
    if o.1 == "version" then some .version else if o.1 == "help" then some .help else none

/-- The format that the program options ask for. -/
def formatFlag (options : Arguments) : Option OutputFormat :=
  if options.has "json" then some .json
  else if options.has "plain" then some .plain
  else none

/-- The group that the first word names, and the arguments behind it. -/
def groupOf (options : Arguments) : Except UsageError (CommandGroup × List String) :=
  match options.words with
  | [] => .error .missingCommand
  | name :: rest => match CommandGroup.ofName? name with
      | some group => .ok (group, rest)
      | none => .error (.unknownCommand name)

def ofUsage {α : Type} : Except UsageError α → Run α
  | .ok a => return a
  | .error e => throw (.misused e)

/-- The format that is asked for, on the command line or in the settings. -/
def requestedFormat (options : Arguments) (group : CommandGroup) : Run OutputFormat :=
  match group, formatFlag options with
  | .config, flag => return flag.getD .auto
  | _, flag => do
      let value : Value := flag.elim .null fun f => .str f.name
      return (← Run.change (Settings.load · ⟨.null, value, .null⟩)).format

/-- Performs a command. -/
def perform (format : OutputFormat) : Command → Run Unit
  | .build request => build request
  | .inspectOperations request => inspectOperations format request
  | .inspectComponents request => inspectComponents format request
  | .showSettings => showSettings
  | .setSetting key value => setSetting key value
  | .resetSettings confirmed => resetSettings confirmed
  | .help => Run.report (.line usageText)

/-- Performs what the arguments behind the program options ask for. -/
def dispatch (options : Arguments) : Run Unit := do
  match announcement? options with
  | some .version => Run.report (.line s!"{programName} {programVersion}")
  | some .help => Run.report (.line usageText)
  | none =>
      let (group, args) ← ofUsage (groupOf options)
      let requested ← requestedFormat options group
      let format := requested.decide (← Run.world) (options.has "no-color")
      perform format (← ofUsage (Command.ofArguments group args))

def verbosityOf (options : Arguments) : Verbosity :=
  ⟨options.has "quiet", options.has "verbose"⟩

/-- A run of the program. -/
def run (w : World) (args : List String) : Outcome :=
  match readArguments programOptions false args with
  | .error e => finish .normal w (throw (.misused e))
  | .ok options => finish (verbosityOf options) w (dispatch options)

/-- The command that arguments ask for, if they are well formed. -/
def commandOf? (args : List String) : Option Command :=
  let command : Except UsageError Command := do
    let options ← readArguments programOptions false args
    let (group, rest) ← groupOf options
    Command.ofArguments group rest
  command.toOption

end ApiContract.CommandLine
