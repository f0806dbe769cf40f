import ApiContract.Fault.Build
import ApiContract.Fault.Settings
import ApiContract.Fault.Source
import ApiContract.Reference.Expand

/-!
# Failures of the library

The failures of every stage in one type.  A *misfit* is a value of a kind that no rule of a stage
covers, such as a number where a mapping is looked into; it has no family and no message of its
own.
-/

namespace ApiContract

/-- A failure of any stage. -/
inductive Fault where
  | build (e : BuildError)
  | references (failures : List Reference.Failure)
  | source (e : SourceError)
  | settings (e : SettingsError)
  | stated (family : Family) (text : String) (exitCode : Option Nat)
  | misfit
  deriving Repr

namespace Fault

/-- The family of a failure; a misfit has none. -/
def family? : Fault → Option Family
  | .build e => some e.cause.family
  | .references _ => some .references
  | .source _ => some .source
  | .settings _ => some .settings
  | .stated family _ _ => some family
  | .misfit => none

def message : Fault → String
  | .build e => e.message
  | .references failures => Reference.failuresMessage failures
  | .source e => e.message
  | .settings e => e.message
  | .stated _ text _ => text
  | .misfit => "Unexpected error"

/-- The exit code of the family, unless the failure states its own. -/
def exitCode : Fault → Nat
  | .stated family _ (some code) => if family.isBuild then family.exitCode else code
  | fault => fault.family?.elim 1 Family.exitCode

/-- The failure for a builder's error.  One that cannot be told is a misfit. -/
def ofBuild (e : BuildError) : Fault :=
  if e.isTellable then .build e else .misfit

/-- Fills in the place of a builder's error; other failures have none. -/
def locate (path method : Value) : Fault → Fault
  | .build e => ofBuild (e.locate path method)
  | fault => fault

end Fault

end ApiContract
