/-!
# Computations that leave notes

A stage of the pipeline returns a value or fails, and on the way leaves notes for whoever asked to
see them.  Notes are kept when the stage fails.  `Traced.outcome` forgets the notes; what a
sequence of stages returns depends on the outcomes alone.
-/

namespace ApiContract

/-- The part of the pipeline that a note comes from. -/
inductive Topic where
  | loader
  | resolver
  | components
  | operation
  | parameters
  | request
  | responses
  | tree
  deriving DecidableEq, Repr

/-- A line for the debug log. -/
structure Note where
  topic : Topic
  text : String
  deriving DecidableEq, Repr

/-- The name that a topic has in the debug log. -/
def Topic.name : Topic → String
  | .loader => "specshape.parser.loader"
  | .resolver => "specshape.parser.resolver"
  | .components => "specshape.generator.components"
  | .operation => "specshape.generator.operation"
  | .parameters => "specshape.generator.parameters"
  | .request => "specshape.generator.request"
  | .responses => "specshape.generator.responses"
  | .tree => "specshape.generator.tree"

/-- Notes, and a value or a failure. -/
structure Traced (ε α : Type) where
  notes : List Note
  outcome : Except ε α

namespace Traced

variable {ε α β : Type}

/-- Runs a second stage on the value of the first; a failure of the first ends the sequence. -/
def andThen (first : Traced ε α) (second : α → Traced ε β) : Traced ε β :=
  match first.outcome with
  | .ok a => ⟨first.notes ++ (second a).notes, (second a).outcome⟩
  | .error e => ⟨first.notes, .error e⟩

instance : Monad (Traced ε) where
  pure a := ⟨[], .ok a⟩
  bind := andThen

/-- A stage without notes. -/
def lift (outcome : Except ε α) : Traced ε α := ⟨[], outcome⟩

instance : MonadLift (Except ε) (Traced ε) := ⟨lift⟩

/-- Leaves a note. -/
def note (topic : Topic) (text : String) : Traced ε Unit := ⟨[⟨topic, text⟩], .ok ()⟩

def fail (e : ε) : Traced ε α := ⟨[], .error e⟩

/-- Changes the failure of a stage. -/
def mapError (f : ε → ε) (stage : Traced ε α) : Traced ε α :=
  ⟨stage.notes, stage.outcome.mapError f⟩

@[simp] theorem outcome_pure (a : α) : (pure a : Traced ε α).outcome = .ok a := rfl

@[simp] theorem outcome_lift (x : Except ε α) : (lift x).outcome = x := rfl

@[simp] theorem outcome_note (topic : Topic) (text : String) :
    (note topic text : Traced ε Unit).outcome = .ok () := rfl

@[simp] theorem outcome_fail (e : ε) : (fail e : Traced ε α).outcome = .error e := rfl

@[simp] theorem outcome_bind (first : Traced ε α) (second : α → Traced ε β) :
    (first >>= second).outcome = first.outcome >>= fun a => (second a).outcome := by
  change (first.andThen second).outcome = _
  unfold andThen
  cases first.outcome <;> rfl

@[simp] theorem outcome_mapError (f : ε → ε) (stage : Traced ε α) :
    (stage.mapError f).outcome = stage.outcome.mapError f := rfl

end Traced

end ApiContract
