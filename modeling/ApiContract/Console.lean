import ApiContract.Host.World
import ApiContract.Settings
import ApiContract.Traced

/-!
# The console

A run reports in events: data, messages and notes.  Data goes to standard output, everything else
to standard error.  What a run is asked to show or to hide decides about messages and notes alone,
so that standard output can be handed to another program in every case.
-/

namespace ApiContract

/-- Kinds of messages.  A notice is shown in every case and bears no label. -/
inductive MessageKind where
  | info
  | success
  | warning
  | error
  | debug
  | notice
  deriving DecidableEq, Repr

/-- What stands before the text of a message. -/
def MessageKind.label : MessageKind → String
  | .info | .success | .notice => ""
  | .warning => "Warning: "
  | .error => "Error: "
  | .debug => "[debug] "

/-- What a run is asked to hide and to show. -/
structure Verbosity where
  quiet : Bool
  verbose : Bool
  deriving DecidableEq, Repr

namespace Verbosity

def normal : Verbosity := ⟨false, false⟩

/-- Whether messages of a kind are shown. -/
def shows (v : Verbosity) : MessageKind → Bool
  | .info | .success => !v.quiet
  | .debug => v.verbose
  | .warning | .error | .notice => true

end Verbosity

/-- Something that a run reports. -/
inductive Event where
  | data (text : String)
  | message (kind : MessageKind) (text : String)
  | note (n : Note)
  deriving DecidableEq, Repr

namespace Event

/-- A line of data. -/
def line (text : String) : Event := .data (text ++ "\n")

/-- What an event writes to standard output. -/
def onOutput : Event → String
  | .data text => text
  | _ => ""

/-- What an event writes to standard error. -/
def onError (v : Verbosity) : Event → String
  | .data _ => ""
  | .message kind text => if v.shows kind then kind.label ++ text ++ "\n" else ""
  | .note n => if v.verbose then s!"[debug] {n.topic.name}: {n.text}\n" else ""

end Event

/-- Standard output after some events. -/
def outputOf (events : List Event) : String := String.join (events.map Event.onOutput)

/-- Standard error after some events. -/
def errorsOf (v : Verbosity) (events : List Event) : String :=
  String.join (events.map (Event.onError v))

/-- Whether colours may be used: nobody has disabled them and the terminal can show them. -/
def allowsColour (w : Host.World) (disabled : Bool) : Bool :=
  !disabled && (w.valueOf? "NO_COLOR").isNone && w.valueOf? "TERM" != some "dumb"

/-- The format of a run.  Left open it is rich on a terminal with colours and plain elsewhere. -/
def OutputFormat.decide (requested : OutputFormat) (w : Host.World) (colourDisabled : Bool) :
    OutputFormat :=
  match requested with
  | .auto => if w.isTerminal && allowsColour w colourDisabled then .rich else .plain
  | format => format

theorem OutputFormat.decide_ne_auto (requested : OutputFormat) (w : Host.World)
    (colourDisabled : Bool) : requested.decide w colourDisabled ≠ .auto := by
  cases requested <;> simp [OutputFormat.decide]
  split <;> simp

end ApiContract
