import ApiContract.CommandLine.Session

/-!
# The commands for settings

The settings of a run can be shown; those of the user can be set one by one and reset together.
Before a reset a question is asked, until it is answered with yes or no, or with an empty line,
which means no.
-/

namespace ApiContract.CommandLine

open Settings

def showSettings : Run Unit := do
  let settings ← Run.change (Settings.load · .none)
  Run.say .info s!"Config file: {(userFile (← Run.world)).text}"
  Run.document (.block 2) settings.toValue

def setSetting (key value : String) : Run Unit := do
  let _ ← Run.change (setUser · key value)
  Run.say .success s!"Set {key} = {value}"

/-- An answer to a question: blanks around it and the case of its letters say nothing. -/
def answer? (line : List Char) : Option Bool :=
  let word := String.ofList ((Text.trimBoth Text.isBlankOrSeparator line).map Char.toLower)
  if word == "y" || word == "yes" then some true
  else if word == "n" || word == "no" || word == "" then some false
  else none

/-- The lines of a text.  Behind the last line break there is a line only if it is not empty. -/
def linesOf : List Char → List (List Char)
  | [] => []
  | c :: rest =>
      if c == '\n' then [] :: linesOf rest
      else match linesOf rest with
        | [] => [[c]]
        | line :: lines => (c :: line) :: lines

/-- Asks until a line answers; the end of the lines starves the command. -/
def ask (question : String) : List (List Char) → Run Bool
  | [] => do
      Run.report (.data question)
      throw .starved
  | line :: rest => do
      Run.report (.data question)
      match answer? line with
      | some decision => return decision
      | none => do
          Run.report (.line "Error: invalid input")
          ask question rest

def resetQuestion : String := "Reset all config to defaults? [y/N]: "

def resetSettings (confirmed : Bool) : Run Unit := do
  if !confirmed then
    if !(← ask resetQuestion (linesOf (← Run.world).stdin.toList)) then
      Run.say .info "Cancelled."
      throw .done
  Run.change fun w => match resetUser w with
    | .ok next => (next, .ok ())
    | .error fault => (w, .error fault)
  Run.say .success "Configuration reset to defaults."

end ApiContract.CommandLine
