import ApiContract.Fault
import ApiContract.Traced

/-!
# Descriptions without references

The expansion of all references of a description, or all that are dangling.
-/

namespace ApiContract.Description

/-- The description with every reference expanded. -/
def inline (description : Value) : Traced Fault Value :=
  let expansion := Reference.expand description
  if expansion.failures.isEmpty then
    ⟨[⟨.resolver, "All references resolved"⟩], .ok expansion.node⟩
  else .fail (.references expansion.failures)

theorem outcome_inline_eq_ok_iff {description result : Value} :
    (inline description).outcome = .ok result ↔
      (Reference.expand description).failures = [] ∧
        (Reference.expand description).node = result := by
  by_cases hfailures : (Reference.expand description).failures = []
  · simp [inline, hfailures]
  · simp [inline, hfailures, Traced.fail]

theorem outcome_inline_eq_error_iff {description : Value} {failures : List Reference.Failure} :
    (inline description).outcome = .error (.references failures) ↔
      (Reference.expand description).failures = failures ∧ failures ≠ [] := by
  by_cases hfailures : (Reference.expand description).failures = []
  · simp only [inline, hfailures, List.isEmpty_nil, if_true]
    constructor
    · intro houtcome
      cases houtcome
    · rintro ⟨rfl, hne⟩
      exact absurd rfl hne
  · simp only [inline, List.isEmpty_iff, hfailures, if_false, Traced.fail, Except.error.injEq,
      Fault.references.injEq]
    constructor
    · rintro rfl
      exact ⟨rfl, hfailures⟩
    · exact And.left

end ApiContract.Description
