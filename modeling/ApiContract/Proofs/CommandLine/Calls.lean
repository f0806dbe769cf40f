import ApiContract.CommandLine.Program
import ApiContract.Proofs.CommandLine.Steps
import ApiContract.Proofs.Schema.Success

/-!
# Calls

Well-formed arguments call a command.  A run of them decides the format first, for which commands
that need settings read them, and then performs the command.
-/

namespace ApiContract.CommandLine

open Host Schema

/-- What the command line gives to the settings that decide the format. -/
def formatFlags (options : Arguments) : Settings.Flags :=
  ⟨.null, (formatFlag options).elim .null fun f => .str f.name, .null⟩

/-- What the arguments of a run call: the options of the program, and a command of a group. -/
structure Call where
  options : Arguments
  group : CommandGroup
  rest : List String
  command : Command

/-- The arguments are well formed, ask for no announcement and call this command. -/
structure Call.IsOf (c : Call) (args : List String) : Prop where
  options : readArguments programOptions false args = .ok c.options
  announcement : announcement? c.options = none
  group : groupOf c.options = .ok (c.group, c.rest)
  command : Command.ofArguments c.group c.rest = .ok c.command

/-- The call of some arguments. -/
def call? (args : List String) : Option Call := do
  let options ← (readArguments programOptions false args).toOption
  let (group, rest) ← (groupOf options).toOption
  let command ← (Command.ofArguments group rest).toOption
  if announcement? options = none then some ⟨options, group, rest, command⟩ else none

variable {c : Call} {args : List String}

theorem isOf_of_call? (hfound : call? args = some c) : c.IsOf args := by
  simp only [call?, Option.bind_eq_bind, Option.bind_eq_some_iff, toOption_eq_some_iff] at hfound
  obtain ⟨options, hoptions, ⟨group, rest⟩, hgroup, command, hcommand, hfound⟩ := hfound
  split at hfound
  · cases hfound
    exact ⟨hoptions, by assumption, hgroup, hcommand⟩
  · cases hfound

namespace Call.IsOf

variable {w opened last : World} {requested : OutputFormat} {result : Except Stop Unit}
  {text : String} (hc : c.IsOf args)

include hc

theorem run_eq (w : World) : run w args = finish (verbosityOf c.options) w (dispatch c.options) := by
  rw [run, hc.options]

/-- A run performs its command in the world that is left once the format is known. -/
theorem ends_dispatch
    (hrequested : Ends (requestedFormat c.options c.group) w (.ok requested) "" opened)
    (hperform : Ends (perform (requested.decide opened (c.options.has "no-color")) c.command) opened
      result text last) :
    Ends (dispatch c.options) w result text last := by
  unfold dispatch
  rw [hc.announcement, hc.group]
  refine (Ends.pure _).after ?_
  refine hrequested.after ?_
  refine Ends.world.after ?_
  rw [hc.command]
  exact (Ends.pure _).after hperform

omit hc in
/-- Commands that need settings read them for the format. -/
theorem ends_requestedFormat {general : Settings} (hgroup : c.group ≠ .config)
    (hload : Settings.load w (formatFlags c.options) = (opened, .ok general)) :
    Ends (requestedFormat c.options c.group) w (.ok general.format) "" opened := by
  have hread : Ends (do
      return (← Run.change (Settings.load · (formatFlags c.options))).format)
      w (.ok general.format) "" opened := (Ends.change hload).after (Ends.pure _)
  cases hcase : c.group with
  | config => exact absurd hcase hgroup
  | build => exact hread
  | inspect => exact hread

end Call.IsOf

end ApiContract.CommandLine
