import ApiContract.CommandLine.Program
import ApiContract.Proofs.CommandLine.Steps
import ApiContract.Proofs.Failing
import ApiContract.Proofs.Host.Files

/-!
# Cautious steps

Up to the end of a command its steps only prepare: they write nothing to standard output and no
file, and if one of them stops the command, the exit code tells.  `Cautious` says so of a step, and
what holds where it ends with a value; the laws below pass that on from step to step.
-/

namespace ApiContract.CommandLine

open Host

/-- A stop whose exit code tells it from success and from an absence. -/
inductive Stop.IsFailure : Stop → Prop where
  | misused (e : UsageError) : IsFailure (.misused e)
  | failed {fault : Fault} (hfault : fault.IsOrdinary) : IsFailure (.failed fault)

/-- From a world, a step writes nothing to standard output and changes no file.  It stops with a
failure, or it ends with a value and leaves a world for which a condition holds. -/
def Cautious {α : Type} (step : Run α) (w : World) (post : α → World → Prop) : Prop :=
  (∃ stop next, Ends step w (.error stop) "" next ∧ stop.IsFailure ∧ w.Keeps next) ∨
    ∃ a next, Ends step w (.ok a) "" next ∧ w.Keeps next ∧ post a next

namespace Cautious

variable {α β : Type} {step : Run α} {w : World} {post : α → World → Prop}

theorem pure {a : α} (hpost : post a w) : Cautious (pure a) w post :=
  .inr ⟨a, w, Ends.pure a, .refl w, hpost⟩

theorem bind {following : α → Run β} {last : β → World → Prop} (hstep : Cautious step w post)
    (hfollowing : ∀ a next, post a next → Cautious (following a) next last) :
    Cautious (step >>= following) w last := by
  obtain ⟨stop, next, hends, hstop, hkeeps⟩ | ⟨a, next, hends, hkeeps, hpost⟩ := hstep
  · exact .inl ⟨stop, next, hends.stop, hstop, hkeeps⟩
  · obtain ⟨stop, after, hlast, hstop, hmore⟩ | ⟨b, after, hlast, hmore, hafter⟩ :=
      hfollowing a next hpost
    · exact .inl ⟨stop, after, hends.after hlast, hstop, hkeeps.trans hmore⟩
    · exact .inr ⟨b, after, hends.after hlast, hkeeps.trans hmore, hafter⟩

theorem world : Cautious Run.world w fun a next => a = w ∧ next = w :=
  .inr ⟨w, w, Ends.world, .refl w, rfl, rfl⟩

theorem say (kind : MessageKind) (text : String) :
    Cautious (Run.say kind text) w fun _ next => next = w :=
  .inr ⟨(), w, Ends.report (.message kind text), .refl w, rfl⟩

/-- Arguments that are refused stop the command. -/
theorem ofUsage (x : Except UsageError α) :
    Cautious (ofUsage x) w fun a next => x = .ok a ∧ next = w := by
  cases x with
  | ok a => exact .pure ⟨rfl, rfl⟩
  | error e => exact .inl ⟨_, w, Ends.throw _, .misused e, .refl w⟩

theorem textOrMisfit (text : Option String) :
    Cautious (Run.textOrMisfit text) w fun a next => text = some a ∧ next = w := by
  cases text with
  | some text => exact .pure ⟨rfl, rfl⟩
  | none => exact .inl ⟨_, w, Ends.throw _, .failed Fault.isOrdinary_misfit, .refl w⟩

theorem stage {t : Traced Fault α} (hordinary : Ordinary t.outcome) :
    Cautious (Run.stage t) w fun a next => t.outcome = .ok a ∧ next = w := by
  have hends := Ends.stage_outcome (w := w) t
  cases houtcome : t.outcome with
  | ok a =>
      rw [houtcome] at hends
      exact .inr ⟨a, w, hends, .refl w, rfl, rfl⟩
  | error fault =>
      rw [houtcome] at hends hordinary
      cases hordinary with
      | error hfault => exact .inl ⟨_, w, hends, .failed hfault, .refl w⟩

theorem ofExcept {outcome : Except Fault α} (hordinary : Ordinary outcome) :
    Cautious (Run.ofExcept outcome) w fun a next => outcome = .ok a ∧ next = w :=
  stage hordinary

theorem change {f : World → World × Except Fault α} (hkeeps : w.Keeps (f w).1)
    (hordinary : Ordinary (f w).2) :
    Cautious (Run.change f) w fun a next => f w = (next, .ok a) := by
  have hends := Ends.change_outcome (w := w) f
  cases houtcome : (f w).2 with
  | ok a =>
      rw [houtcome] at hends
      exact .inr ⟨a, _, hends, hkeeps, Prod.ext rfl houtcome⟩
  | error fault =>
      rw [houtcome] at hends hordinary
      cases hordinary with
      | error hfault => exact .inl ⟨_, _, hends, .failed hfault, hkeeps⟩

end Cautious

/-! ## Commands that do all or nothing -/

/-- From a world, a command fails, writes nothing to standard output and changes no file, or it
ends, and a condition holds for what it has written and for the world that it leaves. -/
def AllOrNothing (command : Run Unit) (w : World) (post : String → World → Prop) : Prop :=
  (∃ stop next, Ends command w (.error stop) "" next ∧ stop.IsFailure ∧ w.Keeps next) ∨
    ∃ text next, Ends command w (.ok ()) text next ∧ post text next

theorem AllOrNothing.mono {command : Run Unit} {w : World} {post last : String → World → Prop}
    (hcommand : AllOrNothing command w post)
    (himp : ∀ text next, post text next → last text next) : AllOrNothing command w last :=
  hcommand.imp_right fun ⟨text, next, hends, hpost⟩ => ⟨text, next, hends, himp text next hpost⟩

/-- Steps that prepare what a command does in the end. -/
theorem Cautious.allOrNothing {α : Type} {step : Run α} {following : α → Run Unit} {w : World}
    {post : α → World → Prop} {last : String → World → Prop} (hstep : Cautious step w post)
    (hfollowing : ∀ a next, post a next → w.Keeps next → AllOrNothing (following a) next last) :
    AllOrNothing (step >>= following) w last := by
  obtain ⟨stop, next, hends, hstop, hkeeps⟩ | ⟨a, next, hends, hkeeps, hpost⟩ := hstep
  · exact .inl ⟨stop, next, hends.stop, hstop, hkeeps⟩
  · obtain ⟨stop, after, hlast, hstop, hmore⟩ | ⟨text, after, hlast, hafter⟩ :=
      hfollowing a next hpost hkeeps
    · exact .inl ⟨stop, after, hends.after hlast, hstop, hkeeps.trans hmore⟩
    · exact .inr ⟨text, after, hends.after hlast, hafter⟩

/-! ## Runs that fail -/

theorem placeOf_crashLog {w next : World} (hkeeps : w.Keeps next) :
    next.placeOf (crashLog next) = w.placeOf (crashLog w) := by
  rw [hkeeps.rest]
  rfl

theorem close_failed_snd (fault : Fault) (s : Session) :
    (close (.failed fault) s).2 = fault.exitCode := by
  cases fault <;> rfl

/-- The exit code of a command that fails tells it from success and from an absence. -/
theorem exitCode_finish_of_failure {command : Run Unit} {verbosity : Verbosity} {w next : World}
    {stop : Stop} {text : String} (hends : Ends command w (.error stop) text next)
    (hstop : stop.IsFailure) :
    (finish verbosity w command).exitCode ≠ 0 ∧ (finish verbosity w command).exitCode ≠ 4 := by
  obtain ⟨events, -, hrun⟩ := hends []
  simp only [finish, hrun]
  cases hstop with
  | misused e => simp [close]
  | failed hfault =>
      rw [close_failed_snd]
      exact hfault

/-- The log of a misfit is the only file that is written once a command has stopped. -/
theorem finish_of_failure {command : Run Unit} {verbosity : Verbosity} {w next : World}
    {stop : Stop} {text : String} (hends : Ends command w (.error stop) text next)
    (hstop : stop.IsFailure) :
    (finish verbosity w command).exitCode ≠ 0 ∧ (finish verbosity w command).output = text ∧
      ∀ place, place ≠ next.placeOf (crashLog next) →
        (finish verbosity w command).world.files.fileAt place = next.files.fileAt place := by
  refine ⟨(exitCode_finish_of_failure hends hstop).1, ?_⟩
  obtain ⟨events, htext, hrun⟩ := hends []
  cases hstop with
  | misused e => simp [finish, close, hrun, htext]
  | @failed fault hfault =>
      cases fault with
      | misfit =>
          refine ⟨?_, fun place hplace => ?_⟩
          · simp [finish, close, hrun, htext]
          · simp only [finish, close, hrun]
            obtain ⟨logged, octets, hwrite, -, hlogged⟩ | ⟨logged, hwrite, hlogged⟩ :=
              next.write_replaces_or_keeps (crashLog next) (Fault.misfit.message ++ "\n")
            · rw [hwrite]
              exact hlogged.files place hplace
            · rw [hwrite]
              exact hlogged.fileAt_eq place
      | _ =>
          refine ⟨?_, fun place hplace => ?_⟩
          · simp [finish, close, hrun, htext]
          · simp [finish, close, hrun]

end ApiContract.CommandLine
