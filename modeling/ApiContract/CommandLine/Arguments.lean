/-!
# Arguments of a command

Arguments are options and words.  A long option stands behind two dashes and may bring its value
along behind an equals sign; letters stand behind one dash, several in a row if all but the last
take no value.  Otherwise the value of an option is the argument that follows it.  Behind two bare
dashes all arguments are words.
-/

namespace ApiContract.CommandLine

/-- Why arguments are refused. -/
inductive UsageError where
  | unknownOption (option : String)
  | valueMissing (option : String)
  | valueUnwanted (option : String)
  | badValue (option value : String)
  | missingOption (option : String)
  | missingArgument (name : String)
  | extraArgument (argument : String)
  | missingCommand
  | unknownCommand (name : String)
  deriving DecidableEq, Repr

def UsageError.message : UsageError → String
  | .unknownOption option => s!"No such option: {option}"
  | .valueMissing option => s!"Option '{option}' requires an argument."
  | .valueUnwanted option => s!"Option '{option}' does not take a value."
  | .badValue option value => s!"Invalid value for '{option}': {value}"
  | .missingOption option => s!"Missing option '{option}'."
  | .missingArgument name => s!"Missing argument '{name}'."
  | .extraArgument argument => s!"Got unexpected extra argument ({argument})"
  | .missingCommand => "Missing command."
  | .unknownCommand name => s!"No such command '{name}'."

/-- An option: its long name, its letter, and whether it takes a value. -/
structure OptionSpec where
  name : String
  letter : Option Char
  takesValue : Bool
  deriving DecidableEq, Repr

/-- Options with their values in order, and words.  A switch has an empty value. -/
structure Arguments where
  options : List (String × String)
  words : List String
  deriving DecidableEq, Repr

namespace Arguments

/-- Whether an option is given. -/
def has (a : Arguments) (name : String) : Bool := a.options.any (·.1 == name)

/-- All values of an option. -/
def values (a : Arguments) (name : String) : List String :=
  (a.options.filter (·.1 == name)).map (·.2)

/-- The value that an option has in the end. -/
def value? (a : Arguments) (name : String) : Option String := (a.values name).getLast?

def addOptions (found : List (String × String)) (a : Arguments) : Arguments :=
  { a with options := found ++ a.options }

def addWord (word : String) (a : Arguments) : Arguments := { a with words := word :: a.words }

end Arguments

/-- What one argument gives: options, and the name of one whose value is still to come. -/
structure Step where
  options : List (String × String)
  pending : Option String
  deriving DecidableEq, Repr

/-- The options of a row of letters.  What follows a letter that takes a value is its value. -/
def readLetters (specs : List OptionSpec) : List Char → Except UsageError Step
  | [] => .ok ⟨[], none⟩
  | letter :: rest =>
      match specs.find? (·.letter == some letter) with
      | none => .error (.unknownOption (String.ofList ['-', letter]))
      | some spec =>
          if spec.takesValue then
            if rest.isEmpty then .ok ⟨[], some spec.name⟩
            else .ok ⟨[(spec.name, String.ofList rest)], none⟩
          else do
            let others ← readLetters specs rest
            .ok { others with options := (spec.name, "") :: others.options }

/-- A long option with the text behind its equals sign, if there is one. -/
def readLong (spec : OptionSpec) (value : Option String) : Except UsageError Step :=
  match spec.takesValue, value with
  | true, some text => .ok ⟨[(spec.name, text)], none⟩
  | true, none => .ok ⟨[], some spec.name⟩
  | false, some _ => .error (.valueUnwanted spec.name)
  | false, none => .ok ⟨[(spec.name, "")], none⟩

/-- The options of an argument that starts with a dash; the dash is left out. -/
def readOption (specs : List OptionSpec) : List Char → Except UsageError Step
  | '-' :: body =>
      let name := String.ofList (body.takeWhile (· != '='))
      let value :=
        if body.contains '=' then some (String.ofList ((body.dropWhile (· != '=')).drop 1))
        else none
      match specs.find? (·.name == name) with
      | some spec => readLong spec value
      | none => .error (.unknownOption name)
  | letters => readLetters specs letters

/-- Whether an argument is written as an option. -/
def isOption (argument : String) : Bool :=
  match argument.toList with
  | '-' :: _ :: _ => true
  | _ => false

/-- Reads arguments.  Unless words may stand among the options, the first word ends them. -/
def readArguments (specs : List OptionSpec) (mixed : Bool) :
    List String → Except UsageError Arguments
  | [] => .ok ⟨[], []⟩
  | argument :: rest =>
      if argument == "--" then .ok ⟨[], rest⟩
      else if isOption argument then
        match readOption specs (argument.toList.drop 1) with
        | .error e => .error e
        | .ok ⟨found, none⟩ => (readArguments specs mixed rest).map (·.addOptions found)
        | .ok ⟨found, some name⟩ => match rest with
            | [] => .error (.valueMissing name)
            | value :: others =>
                (readArguments specs mixed others).map (·.addOptions (found ++ [(name, value)]))
      else if mixed then (readArguments specs mixed rest).map (·.addWord argument)
      else .ok ⟨[], argument :: rest⟩

end ApiContract.CommandLine
