import ApiContract.Schema.Declared
import Mathlib.Data.List.Forall2

/-!
# When reading a declaration succeeds

A sequence of steps succeeds exactly if each of them does, and a step that looks into a declaration
succeeds exactly if the declaration is a mapping.  A list that is read item by item gives one
result for each item, in order.
-/

namespace ApiContract.Schema

section Sequence

variable {ε α β : Type} {x : Except ε α}

theorem bind_eq_ok_iff {f : α → Except ε β} {b : β} :
    x >>= f = .ok b ↔ ∃ a, x = .ok a ∧ f a = .ok b := by
  cases x with
  | error e => simp [bind, Except.bind]
  | ok a => simp [bind, Except.bind]

theorem bind_eq_error_iff {f : α → Except ε β} {e : ε} :
    x >>= f = .error e ↔ x = .error e ∨ ∃ a, x = .ok a ∧ f a = .error e := by
  cases x with
  | error other => simp [bind, Except.bind]
  | ok a => simp [bind, Except.bind]

theorem ok_bind (a : α) (f : α → Except ε β) : Except.ok a >>= f = f a := rfl

@[simp] theorem throw_ne_ok {e : ε} {a : α} : (throw e : Except ε α) ≠ .ok a :=
  nofun

theorem map_eq_ok_iff {f : α → β} {b : β} : x.map f = .ok b ↔ ∃ a, x = .ok a ∧ f a = b := by
  cases x with
  | error e => simp [Except.map]
  | ok a => simp [Except.map]

theorem mapError_eq_ok_iff {ε' : Type} {f : ε → ε'} {a : α} :
    x.mapError f = .ok a ↔ x = .ok a := by
  cases x <;> simp [Except.mapError]

theorem toOption_eq_some_iff {a : α} : x.toOption = some a ↔ x = .ok a := by
  cases x <;> simp [Except.toOption]

theorem exists_eq_ok_of_any {p : α → Bool} (hany : x.toOption.any p = true) :
    ∃ a, x = .ok a ∧ p a = true := by
  obtain ⟨a, ha, hp⟩ := (Option.any_eq_true _ _).mp hany
  exact ⟨a, toOption_eq_some_iff.mp ha, hp⟩

theorem exists_eq_ok_of_isSome (hsome : x.toOption.isSome = true) : ∃ a, x = .ok a := by
  obtain ⟨a, ha⟩ := Option.isSome_iff_exists.mp hsome
  exact ⟨a, toOption_eq_some_iff.mp ha⟩

/-- A sequence that fails under a condition succeeds exactly if the rest does without it. -/
theorem guard_eq_ok_iff {b : Bool} {e : ε} {f : β → Except ε α} {a : α} :
    (if b = true then throw e >>= f else x) = .ok a ↔ b = false ∧ x = .ok a := by
  cases b with
  | false => simp
  | true => simp [bind_eq_ok_iff]

end Sequence

section Lists

variable {α β : Type} {R : α → β → Prop} {as : List α} {bs : List β}

theorem exists_of_mem_left (hall : List.Forall₂ R as bs) {a : α} (ha : a ∈ as) :
    ∃ b ∈ bs, R a b := by
  induction hall with
  | nil => simp at ha
  | cons hhead _ ih =>
      rcases List.mem_cons.mp ha with rfl | hrest
      · exact ⟨_, List.mem_cons_self, hhead⟩
      · obtain ⟨b, hb, hab⟩ := ih hrest
        exact ⟨b, List.mem_cons_of_mem _ hb, hab⟩

theorem exists_of_mem_right (hall : List.Forall₂ R as bs) {b : β} (hb : b ∈ bs) :
    ∃ a ∈ as, R a b :=
  exists_of_mem_left hall.flip hb

theorem map_eq_map_of_forall₂ {γ : Type} {f : α → γ} {g : β → γ} (hall : List.Forall₂ R as bs)
    (heq : ∀ a b, R a b → f a = g b) : as.map f = bs.map g := by
  induction hall with
  | nil => rfl
  | cons hhead _ ih => rw [List.map_cons, List.map_cons, heq _ _ hhead, ih]

end Lists

variable {v w : Value} {name : String}

theorem orMisfit_eq_ok_iff {α : Type} {found : Option α} {a : α} :
    orMisfit found = .ok a ↔ found = some a := by
  cases found <;> simp [orMisfit]

theorem entriesOf_eq_ok_iff {entries : Entries} : entriesOf v = .ok entries ↔ v = .map entries := by
  rw [entriesOf, orMisfit_eq_ok_iff]
  cases v <;> simp [Value.asMap?]

theorem fieldOf_eq_ok_iff :
    fieldOf v name = .ok w ↔ ∃ entries, v = .map entries ∧ Entries.fieldD entries name = w := by
  simp only [fieldOf, map_eq_ok_iff, entriesOf_eq_ok_iff]

/-- The entries of a value; one that is not a mapping has none. -/
def entriesIn (v : Value) : Entries :=
  v.asMap?.getD []

theorem entriesIn_of_entriesIfAny {entries : Entries} (hread : entriesIfAny v = .ok entries) :
    entriesIn v = entries := by
  unfold entriesIfAny at hread
  split at hread
  · rw [entriesOf_eq_ok_iff.mp hread]
    rfl
  · rename_i hfalsy
    cases hread
    cases v with
    | map fields =>
        have hempty : fields = [] := by simpa [Value.truthy] using hfalsy
        rw [hempty]
        rfl
    | _ => rfl

end ApiContract.Schema
