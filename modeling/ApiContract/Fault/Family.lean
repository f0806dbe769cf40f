/-!
# Families of failures

Every failure belongs to a family.  The family decides the exit code of the command line, and for
failures of the schema builders also their kind.
-/

namespace ApiContract

/-- Kinds of failures that callers tell apart. -/
inductive FailureKind where
  | missingArgument
  | structuralAbsence
  | invalidShape
  | contentDerivation
  | referenceResolution
  deriving DecidableEq, Repr

/-- Families of failures.  The last seven are those of the schema builders; a missing path and a
missing webhook are structural absences, a missing schema is a failed content derivation. -/
inductive Family where
  | general
  | usage
  | settings
  | source
  | references
  | missingArgument
  | structuralAbsence
  | missingPath
  | missingWebhook
  | invalidShape
  | contentDerivation
  | missingSchema
  deriving DecidableEq, Repr

namespace FailureKind

def name : FailureKind → String
  | .missingArgument => "missing_argument"
  | .structuralAbsence => "structural_absence"
  | .invalidShape => "invalid_shape"
  | .contentDerivation => "content_derivation"
  | .referenceResolution => "reference_resolution"

end FailureKind

namespace Family

/-- The kind of a family, for references and for the schema builders. -/
def kind? : Family → Option FailureKind
  | .general | .usage | .settings | .source => none
  | .references => some .referenceResolution
  | .missingArgument => some .missingArgument
  | .structuralAbsence | .missingPath | .missingWebhook => some .structuralAbsence
  | .invalidShape => some .invalidShape
  | .contentDerivation | .missingSchema => some .contentDerivation

/-- Whether the schema builders raise failures of this family. -/
def isBuild : Family → Bool
  | .general | .usage | .settings | .source | .references => false
  | _ => true

/-- The exit code: 2 for a wrong invocation, 4 for something that the description does not have,
7 for a description that cannot be read, 8 for references, 9 for a malformed description, and 1
for the rest. -/
def exitCode : Family → Nat
  | .general | .settings | .missingArgument => 1
  | .usage => 2
  | .structuralAbsence | .missingPath | .missingWebhook => 4
  | .source => 7
  | .references => 8
  | .invalidShape | .contentDerivation | .missingSchema => 9

/-- Families of one kind share an exit code. -/
theorem exitCode_eq_of_kind?_eq {a b : Family} {k : FailureKind} (ha : a.kind? = some k)
    (hb : b.kind? = some k) : a.exitCode = b.exitCode := by
  cases a <;> cases b <;> cases k <;> simp_all [kind?, exitCode]

end Family

end ApiContract
