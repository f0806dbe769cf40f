import ApiContract.Proofs.Value.Entries
import ApiContract.Schema.Request
import Mathlib.Data.List.Count

/-!
# What a schema accepts

The standard meaning of the schemas that the library builds.  An object schema speaks of the names
that must be present, of the values under the names it lists, and of all other values; a choice
accepts what exactly one of its branches accepts.  Nothing is known about the schemas that are
taken from a description: `admits` decides for them.

A *record* is an object schema that requires exactly the names that it lists and allows no others;
all branches that the library builds for responses are records.
-/

namespace ApiContract.Schema

/-- The value of `additionalProperties` as a schema: a flag, or a schema like those that are
given. -/
def admitsOther (admits : Value → Value → Bool) : Value → Value → Bool
  | .bool allowed, _ => allowed
  | schema, v => admits schema v

mutual

/-- Whether a schema accepts a value. -/
def accepts (admits : Value → Value → Bool) : Node → Value → Bool
  | .given schema, v => admits schema v
  | .pinned value, v => v.asText?.isSome && v.same value
  | .object o, .map fields =>
      o.required.all (Entries.has fields) && acceptsNamed admits o.properties fields &&
        fields.all fun e => Entries.has o.properties e.1 || admitsOther admits o.additional e.2
  | .object _, _ => false
  | .oneOf branches, v => countAccepting admits branches v == 1

/-- Whether every named property that is present has a value that its schema accepts. -/
def acceptsNamed (admits : Value → Value → Bool) : List (Value × Node) → Entries → Bool
  | [], _ => true
  | (name, schema) :: rest, fields =>
      (match fields.get? name with
        | some v => accepts admits schema v
        | none => true) && acceptsNamed admits rest fields

/-- How many schemas accept a value. -/
def countAccepting (admits : Value → Value → Bool) : List Node → Value → Nat
  | [], _ => 0
  | schema :: rest, v => (if accepts admits schema v then 1 else 0) + countAccepting admits rest v

end

variable {admits : Value → Value → Bool} {v : Value} {fields : Entries}

@[simp] theorem accepts_given (schema : Value) :
    accepts admits (.given schema) v = admits schema v := by
  rw [accepts]

theorem accepts_pinned_iff {s : String} :
    accepts admits (.pinned (.str s)) v = true ↔ v = .str s := by
  rw [accepts, Bool.and_eq_true]
  constructor
  · intro hboth
    obtain ⟨_, hsame⟩ := hboth
    exact Value.eq_str_of_same hsame
  · rintro rfl
    simp [Value.asText?]

theorem acceptsNamed_iff {properties : List (Value × Node)} :
    acceptsNamed admits properties fields = true ↔
      ∀ p ∈ properties, ∀ v, fields.get? p.1 = some v → accepts admits p.2 v = true := by
  induction properties with
  | nil => simp [acceptsNamed]
  | cons p rest ih =>
      rw [acceptsNamed, Bool.and_eq_true, ih, List.forall_mem_cons]
      refine and_congr_left fun _ => ?_
      cases fields.get? p.1 <;> simp

/-- What an object schema says about the entries of an object. -/
structure Conforms (admits : Value → Value → Bool) (o : ObjectNode Node) (fields : Entries) :
    Prop where
  required : ∀ name ∈ o.required, Entries.has fields name = true
  named : ∀ p ∈ o.properties, ∀ v, fields.get? p.1 = some v → accepts admits p.2 v = true
  other : ∀ e ∈ fields,
    Entries.has o.properties e.1 = true ∨ admitsOther admits o.additional e.2 = true

theorem accepts_object_iff {o : ObjectNode Node} :
    accepts admits (.object o) v = true ↔ ∃ fields, v = .map fields ∧ Conforms admits o fields := by
  cases v with
  | map fields =>
      rw [accepts, Bool.and_eq_true, Bool.and_eq_true, List.all_eq_true, acceptsNamed_iff,
        List.all_eq_true]
      simp only [Bool.or_eq_true]
      constructor
      · intro hchecks
        obtain ⟨⟨hrequired, hnamed⟩, hother⟩ := hchecks
        exact ⟨fields, rfl, hrequired, hnamed, hother⟩
      · intro hconforms
        obtain ⟨_, ⟨⟩, hrequired, hnamed, hother⟩ := hconforms
        exact ⟨⟨hrequired, hnamed⟩, hother⟩
  | _ => simp [accepts]

/-! ## Choices -/

theorem countAccepting_eq_countP (branches : List Node) :
    countAccepting admits branches v = branches.countP (accepts admits · v) := by
  induction branches with
  | nil => rfl
  | cons branch rest ih => rw [countAccepting, ih, List.countP_cons, Nat.add_comm]

/-- Of branches that exclude each other, a value that one accepts is accepted by exactly one. -/
theorem accepts_oneOf_iff {branches : List Node}
    (hexclusive : branches.Pairwise fun left right =>
      ¬(accepts admits left v = true ∧ accepts admits right v = true)) :
    accepts admits (.oneOf branches) v = true ↔
      ∃ branch ∈ branches, accepts admits branch v = true := by
  rw [accepts, beq_iff_eq, countAccepting_eq_countP]
  induction branches with
  | nil => simp
  | cons branch rest ih =>
      rw [List.pairwise_cons] at hexclusive
      simp only [List.countP_cons, List.mem_cons, exists_eq_or_imp]
      by_cases hbranch : accepts admits branch v = true
      · have hrest : rest.countP (accepts admits · v) = 0 :=
          List.countP_eq_zero.mpr fun other hother haccepts =>
            hexclusive.1 other hother ⟨hbranch, haccepts⟩
        simp [hbranch, hrest]
      · simp [hbranch, ih hexclusive.2]

/-! ## Records -/

/-- The object schema that requires exactly the names that it lists and allows no others. -/
def record (properties : List (Value × Node)) : ObjectNode Node :=
  ⟨properties, properties.map (·.1), .bool false⟩

theorem conforms_record_iff {properties : List (Value × Node)} :
    Conforms admits (record properties) fields ↔
      (∀ p ∈ properties, ∃ v, fields.get? p.1 = some v ∧ accepts admits p.2 v = true) ∧
        ∀ e ∈ fields, Entries.has properties e.1 = true := by
  constructor
  · intro hconforms
    obtain ⟨hrequired, hnamed, hother⟩ := hconforms
    constructor
    · intro p hp
      have hpresent := hrequired p.1 (List.mem_map.mpr ⟨p, hp, rfl⟩)
      rw [Entries.has_eq_isSome_get?] at hpresent
      obtain ⟨v, hv⟩ := Option.isSome_iff_exists.mp hpresent
      exact ⟨v, hv, hnamed p hp v hv⟩
    · intro e he
      simpa [record, admitsOther] using hother e he
  · intro hrecord
    obtain ⟨hnamed, hother⟩ := hrecord
    refine ⟨?_, ?_, fun e he => Or.inl (hother e he)⟩
    · intro name hname
      obtain ⟨p, hp, rfl⟩ := List.mem_map.mp hname
      obtain ⟨v, hv, -⟩ := hnamed p hp
      rw [Entries.has_eq_isSome_get?, hv]
      rfl
    · intro p hp v hv
      obtain ⟨w, hw, haccepts⟩ := hnamed p hp
      obtain rfl : v = w := by simpa [hv] using hw
      exact haccepts

/-! ## Growing an object schema -/

theorem mem_required_require_iff {o : ObjectNode Node} {name : String} {other : Value} :
    other ∈ (o.require (.str name)).required ↔ other ∈ o.required ∨ other = .str name := by
  unfold ObjectNode.require
  split
  · rename_i hrequired
    obtain ⟨key, hkey, hsame⟩ := List.any_eq_true.mp hrequired
    obtain rfl : key = .str name := Value.eq_str_of_same hsame
    constructor
    · exact Or.inl
    · intro hname
      rcases hname with hother | rfl
      · exact hother
      · exact hkey
  · simp

/-- An object schema that admits all other names speaks only of the names it lists. -/
theorem conforms_iff_of_additional {o : ObjectNode Node} (hadditional : o.additional = .bool true) :
    Conforms admits o fields ↔
      (∀ name ∈ o.required, Entries.has fields name = true) ∧
        ∀ p ∈ o.properties, ∀ v, fields.get? p.1 = some v → accepts admits p.2 v = true := by
  constructor
  · intro hconforms
    obtain ⟨hrequired, hnamed, _⟩ := hconforms
    exact ⟨hrequired, hnamed⟩
  · intro hnames
    obtain ⟨hrequired, hnamed⟩ := hnames
    refine ⟨hrequired, hnamed, fun e _ => Or.inr ?_⟩
    rw [hadditional]
    rfl

end ApiContract.Schema
