import ApiContract.CommandLine.Arguments
import ApiContract.Schema.Roots
import ApiContract.Text.Numeral

/-!
# Commands

The commands of the program and the arguments that each of them takes.  The first word names a
group; within the groups for inspection and for settings the next word names the command.
-/

namespace ApiContract.CommandLine

open Schema

/-- The first words. -/
inductive CommandGroup where
  | build
  | inspect
  | config
  deriving DecidableEq, Repr

namespace CommandGroup

def name : CommandGroup → String
  | .build => "build"
  | .inspect => "inspect"
  | .config => "config"

def ofName? (s : String) : Option CommandGroup := [build, inspect, config].find? (·.name == s)

end CommandGroup

/-- What to build: the source, the file to write, if it is not standard output, the roots, of which
none means all, and the settings that are given on the spot. -/
structure BuildRequest where
  source : String
  output : Option String
  roots : List RootName
  indent : Option Nat
  timeout : Option Binary64
  deriving DecidableEq, Repr

/-- What to inspect. -/
structure InspectRequest where
  source : String
  timeout : Option Binary64
  deriving DecidableEq, Repr

inductive Command where
  | build (request : BuildRequest)
  | inspectOperations (request : InspectRequest)
  | inspectComponents (request : InspectRequest)
  | showSettings
  | setSetting (key value : String)
  | resetSettings (confirmed : Bool)
  | help
  deriving DecidableEq, Repr

/-! ## Options -/

def switch (name : String) (letter : Option Char) : OptionSpec := ⟨name, letter, false⟩

def withValue (name : String) (letter : Option Char) : OptionSpec := ⟨name, letter, true⟩

def helpSwitch : OptionSpec := switch "help" none

def programOptions : List OptionSpec :=
  [switch "version" none, switch "json" none, switch "plain" none, switch "no-color" none,
    switch "quiet" (some 'q'), switch "verbose" (some 'v'), helpSwitch]

def inspectOptions : List OptionSpec :=
  [withValue "input" (some 'i'), withValue "timeout" none, helpSwitch]

def buildOptions : List OptionSpec :=
  inspectOptions ++ [withValue "output" (some 'o'), withValue "root" none, withValue "indent" none]

def resetOptions : List OptionSpec := [switch "yes" (some 'y'), helpSwitch]

/-- The value of an option, converted; one that is not given stays open. -/
def converted? {α : Type} (a : Arguments) (name : String) (convert : String → Option α) :
    Except UsageError (Option α) :=
  match a.value? name with
  | none => .ok none
  | some text => match convert text with
      | some v => .ok (some v)
      | none => .error (.badValue name text)

/-- An indentation: a whole number of at least zero. -/
def indentOf? (text : String) : Option Nat := do
  let n ← Text.wholeNumber? 10 text.toList
  if 0 ≤ n then some n.toNat else none

def timeoutOf? (text : String) : Option Binary64 := Text.looseNumber? text.toList

/-- The source, which must be given. -/
def sourceOf (a : Arguments) : Except UsageError String :=
  match a.value? "input" with
  | some source => .ok source
  | none => .error (.missingOption "input")

/-- Refuses words that no argument takes. -/
def refuseWords : List String → Except UsageError Unit
  | [] => .ok ()
  | word :: _ => .error (.extraArgument word)

/-- The roots that are asked for. -/
def rootsOf : List String → Except UsageError (List RootName)
  | [] => .ok []
  | text :: rest => match RootName.ofName? text with
      | some root => (rootsOf rest).map (root :: ·)
      | none => .error (.badValue "root" text)

/-! ## Commands from arguments -/

/-- Reads the arguments of a command, unless they ask for help. -/
def readCommand (specs : List OptionSpec) (args : List String)
    (command : Arguments → Except UsageError Command) : Except UsageError Command := do
  let a ← readArguments specs true args
  if a.has "help" then return .help
  command a

def buildCommand (args : List String) : Except UsageError Command :=
  readCommand buildOptions args fun a => do
    let source ← sourceOf a
    let roots ← rootsOf (a.values "root")
    let indent ← converted? a "indent" indentOf?
    let timeout ← converted? a "timeout" timeoutOf?
    refuseWords a.words
    return .build ⟨source, a.value? "output", roots, indent, timeout⟩

/-- A command that inspects a description. -/
def inspectCommand (command : InspectRequest → Command) (args : List String) :
    Except UsageError Command :=
  readCommand inspectOptions args fun a => do
    let source ← sourceOf a
    let timeout ← converted? a "timeout" timeoutOf?
    refuseWords a.words
    return command ⟨source, timeout⟩

def showCommand (args : List String) : Except UsageError Command :=
  readCommand [helpSwitch] args fun a => do
    refuseWords a.words
    return .showSettings

def setCommand (args : List String) : Except UsageError Command :=
  readCommand [helpSwitch] args fun a =>
    match a.words with
    | [] => .error (.missingArgument "key")
    | [_] => .error (.missingArgument "value")
    | [key, value] => .ok (.setSetting key value)
    | _ :: _ :: word :: _ => .error (.extraArgument word)

def resetCommand (args : List String) : Except UsageError Command :=
  readCommand resetOptions args fun a => do
    refuseWords a.words
    return .resetSettings (a.has "yes")

/-- A command of a group, by the first word. -/
def groupCommand (args : List String)
    (commands : List (String × (List String → Except UsageError Command))) :
    Except UsageError Command := do
  let a ← readArguments [helpSwitch] false args
  if a.has "help" then return .help
  match a.words with
  | [] => .error .missingCommand
  | name :: rest => match commands.find? (·.1 == name) with
      | some (_, command) => command rest
      | none => .error (.unknownCommand name)

/-- The command that arguments behind the first word ask for. -/
def Command.ofArguments (group : CommandGroup) (args : List String) : Except UsageError Command :=
  match group with
  | .build => buildCommand args
  | .inspect => groupCommand args
      [("operations", inspectCommand .inspectOperations),
        ("components", inspectCommand .inspectComponents)]
  | .config => groupCommand args
      [("show", showCommand), ("set", setCommand), ("reset", resetCommand)]

end ApiContract.CommandLine
