import ApiContract.CommandLine.Session

/-!
# What steps leave behind

A step of a session ends with a value or stops.  Up to then it has written some text to standard
output and has left some world; it never takes back what was reported before.  `Ends` says all
three, and the laws below give it for every step that a command is made of.
-/

namespace ApiContract.CommandLine

open Host

@[simp] theorem outputOf_append (before after : List Event) :
    outputOf (before ++ after) = outputOf before ++ outputOf after := by
  simp [outputOf, String.join_append]

@[simp] theorem outputOf_notes (notes : List Note) : outputOf (notes.map .note) = "" := by
  induction notes with
  | nil => rfl
  | cons note rest ih =>
      rw [List.map_cons, ← List.singleton_append, outputOf_append, ih]
      rfl

@[simp] theorem outputOf_message (kind : MessageKind) (text : String) :
    outputOf [.message kind text] = "" := rfl

/-- From a world, a step ends with a result, has written a text to standard output, and leaves
a world. -/
def Ends {α : Type} (step : Run α) (w : World) (result : Except Stop α) (text : String)
    (next : World) : Prop :=
  ∀ before, ∃ events, outputOf events = text ∧
    StateT.run (ExceptT.run step) ⟨w, before⟩ = (result, ⟨next, before ++ events⟩)

namespace Ends

variable {α β : Type} {w next last : World} {text rest : String}

theorem pure (a : α) : Ends (pure a) w (.ok a) "" w := by
  intro before
  refine ⟨[], rfl, ?_⟩
  rw [List.append_nil]
  rfl

theorem throw (stop : Stop) : Ends (throw stop : Run α) w (.error stop) "" w := by
  intro before
  refine ⟨[], rfl, ?_⟩
  rw [List.append_nil]
  rfl

theorem report (e : Event) : Ends (Run.report e) w (.ok ()) e.onOutput w :=
  fun _ => ⟨[e], by simp [outputOf, String.join], rfl⟩

theorem say (kind : MessageKind) (text : String) : Ends (Run.say kind text) w (.ok ()) "" w :=
  report (.message kind text)

theorem world : Ends Run.world w (.ok w) "" w := by
  intro before
  refine ⟨[], rfl, ?_⟩
  rw [List.append_nil]
  rfl

/-- A step after a step that ends with a value. -/
theorem bind {step : Run α} {following : α → Run β} {a : α} {result : Except Stop β}
    (hstep : Ends step w (.ok a) text next) (hfollowing : Ends (following a) next result rest last) :
    Ends (step >>= following) w result (text ++ rest) last := by
  intro before
  obtain ⟨events, htext, hrun⟩ := hstep before
  obtain ⟨more, hrest, hruns⟩ := hfollowing (before ++ events)
  refine ⟨events ++ more, by rw [outputOf_append, htext, hrest], ?_⟩
  rw [ExceptT.run_bind, StateT.run_bind, hrun, ← List.append_assoc]
  exact hruns

/-- A step after a step that writes nothing to standard output. -/
theorem after {step : Run α} {following : α → Run β} {a : α} {result : Except Stop β}
    (hstep : Ends step w (.ok a) "" next) (hfollowing : Ends (following a) next result text last) :
    Ends (step >>= following) w result text last := by
  simpa using hstep.bind hfollowing

theorem stop {step : Run α} {following : α → Run β} {s : Stop}
    (hstep : Ends step w (.error s) text next) :
    Ends (step >>= following) w (.error s) text next := by
  intro before
  obtain ⟨events, htext, hrun⟩ := hstep before
  refine ⟨events, htext, ?_⟩
  rw [ExceptT.run_bind, StateT.run_bind, hrun]
  rfl

/-- A stage ends with its value or stops the command with its failure. -/
theorem stage_outcome (t : Traced Fault α) :
    Ends (Run.stage t) w (t.outcome.mapError .failed) "" w := by
  intro before
  refine ⟨t.notes.map .note, outputOf_notes t.notes, ?_⟩
  unfold Run.stage
  cases t.outcome <;> rfl

theorem stage {t : Traced Fault α} {a : α} (houtcome : t.outcome = .ok a) :
    Ends (Run.stage t) w (.ok a) "" w := by
  have hstage := stage_outcome (w := w) t
  rwa [houtcome] at hstage

theorem ofExcept {outcome : Except Fault α} {a : α} (houtcome : outcome = .ok a) :
    Ends (Run.ofExcept outcome) w (.ok a) "" w :=
  stage houtcome

/-- A step that changes the world leaves the changed one, also when it fails. -/
theorem change_outcome (f : World → World × Except Fault α) :
    Ends (Run.change f) w ((f w).2.mapError .failed) "" (f w).1 := by
  refine world.after ?_
  have hset : Ends (modify fun s => { s with world := (f w).1 } : Run Unit) w (.ok ()) ""
      (f w).1 := by
    intro before
    refine ⟨[], rfl, ?_⟩
    rw [List.append_nil]
    rfl
  exact hset.after (stage_outcome (Traced.lift (f w).2))

theorem change {f : World → World × Except Fault α} {a : α} (hf : f w = (next, .ok a)) :
    Ends (Run.change f) w (.ok a) "" next := by
  have hchange := change_outcome (w := w) f
  rwa [hf] at hchange

/-- A value with a text is written with a line end. -/
theorem document_of_some {layout : Json.Layout} {v : Value}
    (hwritten : Json.write? layout v = some text) :
    Ends (Run.document layout v) w (.ok ()) (text ++ "\n") w := by
  unfold Run.document
  rw [hwritten]
  exact (pure text).after (report (.line text))

/-- A value without a text stops the step before anything is written. -/
theorem document_of_none {layout : Json.Layout} {v : Value}
    (hwritten : Json.write? layout v = none) :
    Ends (Run.document layout v) w (.error (.failed .misfit)) "" w := by
  unfold Run.document
  rw [hwritten]
  exact (throw (.failed .misfit)).stop

variable {command : Run Unit} {verbosity : Verbosity}

theorem finish (hends : Ends command w (.ok ()) text next) :
    (CommandLine.finish verbosity w command).exitCode = 0 ∧
      (CommandLine.finish verbosity w command).output = text := by
  obtain ⟨events, htext, hrun⟩ := hends []
  simp [CommandLine.finish, hrun, htext]

theorem finish_world (hends : Ends command w (.ok ()) text next) :
    (CommandLine.finish verbosity w command).world = next := by
  obtain ⟨events, -, hrun⟩ := hends []
  simp [CommandLine.finish, hrun]

/-- A misfit is reported, but not on standard output. -/
theorem finish_of_misfit (hends : Ends command w (.error (.failed .misfit)) text next) :
    (CommandLine.finish verbosity w command).exitCode = 1 ∧
      (CommandLine.finish verbosity w command).output = text := by
  obtain ⟨events, htext, hrun⟩ := hends []
  simp [CommandLine.finish, close, hrun, htext]

end Ends

end ApiContract.CommandLine
