import ApiContract.Fault.Family

/-!
# Collections of path items

A description holds path items in two collections with the same rules.  They differ in the field
of the description that they are declared in, in the noun for one member, and in the failure that
reports an absence.
-/

namespace ApiContract

inductive Collection where
  | paths
  | webhooks
  deriving DecidableEq, Repr

namespace Collection

/-- The field of the description that declares a collection. -/
def field : Collection → String
  | .paths => "paths"
  | .webhooks => "webhooks"

/-- The noun for a member. -/
def label : Collection → String
  | .paths => "path"
  | .webhooks => "webhook"

/-- The family of the failure for an absent collection or member. -/
def absence : Collection → Family
  | .paths => .missingPath
  | .webhooks => .missingWebhook

/-- Both collections, in the order in which they are reported. -/
def all : List Collection := [.paths, .webhooks]

theorem field_injective {a b : Collection} (h : a.field = b.field) : a = b := by
  cases a <;> cases b <;> simp_all [field]

end Collection

end ApiContract
