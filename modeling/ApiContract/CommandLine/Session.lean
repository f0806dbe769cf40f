import ApiContract.CommandLine.Arguments
import ApiContract.Console
import ApiContract.Fault
import ApiContract.Json.Writer
import ApiContract.Settings.Store

/-!
# Sessions

A command works on the world of its run and reports events.  It can stop early: because it has
nothing left to do, because its arguments are wrong, because input that it waits for has ended, or
with a failure of the library.  `finish` reports how it stopped and gives the exit code.
-/

namespace ApiContract.CommandLine

open Host

/-- How a command stops before its end. -/
inductive Stop where
  | done
  | misused (e : UsageError)
  | starved
  | failed (fault : Fault)
  deriving Repr

/-- The world and the events so far. -/
structure Session where
  world : World
  events : List Event
  deriving Repr

/-- A step of a command. -/
abbrev Run (α : Type) := ExceptT Stop (StateM Session) α

namespace Run

/-- Reports an event. -/
def report (e : Event) : Run Unit :=
  modify fun s => { s with events := s.events ++ [e] }

def say (kind : MessageKind) (text : String) : Run Unit := report (.message kind text)

def world : Run World := return (← get).world

/-- A stage of the library; its notes are reported, and its failure stops the command. -/
def stage {α : Type} (t : Traced Fault α) : Run α := do
  modify fun s => { s with events := s.events ++ t.notes.map .note }
  match t.outcome with
  | .ok a => return a
  | .error fault => throw (.failed fault)

def ofExcept {α : Type} (outcome : Except Fault α) : Run α := stage (Traced.lift outcome)

/-- A step that changes the world, also when it fails. -/
def change {α : Type} (f : World → World × Except Fault α) : Run α := do
  let (next, outcome) := f (← world)
  modify fun s => { s with world := next }
  ofExcept outcome

/-- A text, which is a misfit if there is none. -/
def textOrMisfit (text : Option String) : Run String :=
  match text with
  | some text => return text
  | none => throw (.failed .misfit)

/-- Writes a value to standard output as a JSON document. -/
def document (layout : Json.Layout) (v : Value) : Run Unit := do
  report (.line (← textOrMisfit (Json.write? layout v)))

end Run

/-! ## Tables -/

/-- A table: the titles of its columns, and rows that need not all be full. -/
structure Table where
  titles : List Value
  rows : List (List Value)
  deriving Repr

namespace Table

/-- A row as a mapping from titles to cells. -/
def record? (titles row : List Value) : Option Value :=
  let cells := titles.zip row
  if cells.all (·.1.isKey) then some (.map (Entries.ofList cells)) else none

/-- All rows as mappings. -/
def records? (t : Table) : Option Value :=
  (t.rows.mapM (record? t.titles)).map .list

/-- Cells with tabs between them.  Cells that are no texts cannot be written. -/
def lineText? (cells : List Value) : Option String :=
  (cells.mapM Value.asText?).map (String.intercalate "\t")

end Table

namespace Run

/-- Writes rows line by line. -/
def lines : List (List Value) → Run Unit
  | [] => return
  | row :: rest => do
      report (.line (← textOrMisfit (Table.lineText? row)))
      lines rest

/-- Writes a table to standard output: as JSON records, or as lines with the titles first. -/
def table (format : OutputFormat) (t : Table) : Run Unit :=
  match format with
  | .json => do
      match t.records? with
      | some records => document (.block 2) records
      | none => throw (.failed .misfit)
  | _ => lines (t.titles :: t.rows)

end Run

/-! ## Ends of a run -/

/-- What a run leaves behind. -/
structure Outcome where
  exitCode : Nat
  output : String
  errors : String
  world : World
  isStarved : Bool
  deriving Repr

/-- The log of an unexpected failure. -/
def crashLog (w : World) : Path :=
  ((Settings.dataDirectory w).step "logs").step s!"crash-{w.stamp}.log"

/-- Reports how a command stopped.  A misfit is reported by its log. -/
def close (stop : Stop) (s : Session) : Session × Nat :=
  let saying (kind : MessageKind) (text : String) (s : Session) : Session :=
    { s with events := s.events ++ [.message kind text] }
  match stop with
  | .done => (s, 0)
  | .misused e => (saying .error e.message s, 2)
  | .starved => (saying .notice "Aborted." s, 1)
  | .failed .misfit =>
      let log := crashLog s.world
      let logged := { s with world := (s.world.write log (Fault.misfit.message ++ "\n")).1 }
      (saying .error s!"Unexpected error. Traceback saved to {log.text}" logged, 1)
  | .failed fault => (saying .error fault.message s, fault.exitCode)

/-- What a command leaves behind. -/
def finish (verbosity : Verbosity) (w : World) (command : Run Unit) : Outcome :=
  let (result, session) := StateT.run (ExceptT.run command) ⟨w, []⟩
  let (closed, exitCode) := match result with
    | .ok () => (session, 0)
    | .error stop => close stop session
  let isStarved := match result with
    | .error .starved => true
    | _ => false
  ⟨exitCode, outputOf closed.events, errorsOf verbosity closed.events, closed.world, isStarved⟩

end ApiContract.CommandLine
