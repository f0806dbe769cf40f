import ApiContract.Proofs.Schema.Success
import ApiContract.Proofs.Schema.Unambiguous
import ApiContract.Proofs.Value.Erasure
import ApiContract.Settings.Layers

/-!
# Layers, setting by setting

A layer is seen through two questions: which value it gives to a setting, and whether it has
something other than a mapping where a section should be.  Putting a layer over others answers both
from the answers of the two, and settings are made of the answers alone.
-/

namespace ApiContract.Settings

open Schema (bind_eq_ok_iff)

variable {sections base overlay fields : Entries} {key other : SettingKey} {part name : String}
  {v : Value}

/-- The value that sections give to a setting: its section is a mapping that has it. -/
def given? (sections : Entries) (key : SettingKey) : Option Value :=
  match sections.field? key.part with
  | some (.map fields) => Entries.field? fields key.name
  | _ => none

/-- Whether something other than a mapping stands where a section should. -/
def misdeclares (sections : Entries) (part : String) : Bool :=
  match sections.field? part with
  | none => false
  | some v => v.asMap?.isNone

/-! ## Entries over entries -/

/-- Entries are folded into others by steps that each replace what stands under one key. -/
theorem field?_foldl (merge : Option Value → Value → Value)
    {step : Entries → Value × Value → Entries}
    (hself : ∀ below name v,
      (step below (.str name, v)).field? name = some (merge (below.field? name) v))
    (hother : ∀ (below : Entries) (entry : Value × Value) name, entry.1 ≠ .str name →
      (step below entry).field? name = below.field? name)
    (hdiffer : overlay.KeysDiffer) :
    (overlay.foldl step base).field? name =
      (overlay.field? name).elim (base.field? name) fun v => some (merge (base.field? name) v) := by
  induction overlay generalizing base with
  | nil => rfl
  | cons entry rest ih =>
      obtain ⟨hfirst, hrest⟩ := List.pairwise_cons.mp hdiffer
      rw [List.foldl_cons, ih hrest]
      by_cases hkey : entry.1 = .str name
      · obtain ⟨first, v⟩ := entry
        obtain rfl : first = .str name := hkey
        have hlast : Entries.field? rest name = none := by
          rw [Entries.field?_eq_none_iff]
          intro hmem
          have hdiffers : (Value.str name).same (.str name) = false := hfirst _ hmem
          simp at hdiffers
        rw [hlast, Entries.field?_cons_self, hself]
        rfl
      · rw [Entries.field?_cons_of_ne rest hkey, hother _ _ _ hkey]

theorem field?_update (hdiffer : overlay.KeysDiffer) :
    (update base overlay).field? name = (overlay.field? name).or (base.field? name) := by
  have hfold : (update base overlay).field? name =
      (overlay.field? name).elim (base.field? name) fun v => some v :=
    field?_foldl (fun _ v => v) (fun _ _ _ => Entries.field?_insert_self)
      (fun below entry _ hkey => Entries.field?_insert_of_key_ne below entry.2 hkey) hdiffer
  rw [hfold]
  cases Entries.field? overlay name <;> rfl

/-- A section put over what stands in its place. -/
def overSection (below : Option Value) (v : Value) : Value :=
  match v, below with
  | .map fields, some (.map under) => .map (update under fields)
  | v, _ => v

theorem overlaySection_eq (sections : Entries) (entry : Value × Value) :
    overlaySection sections entry =
      Entries.insert sections entry.1 (overSection (Entries.get? sections entry.1) entry.2) := by
  obtain ⟨key, v⟩ := entry
  cases v with
  | map fields =>
      cases hfound : Entries.get? sections key with
      | none => simp [overlaySection, overSection, hfound]
      | some below => cases below <;> simp [overlaySection, overSection, hfound]
  | _ => rfl

theorem field?_layer (hdiffer : overlay.KeysDiffer) :
    (layer base overlay).field? part =
      (overlay.field? part).elim (base.field? part) fun v =>
        some (overSection (base.field? part) v) := by
  refine field?_foldl overSection (fun below name v => ?_) (fun below entry name hkey => ?_) hdiffer
  · rw [overlaySection_eq, Entries.field?_insert_self]
    rfl
  · rw [overlaySection_eq, Entries.field?_insert_of_key_ne below _ hkey]

/-! ## Layers over layers -/

theorem isNone_asMap?_overSection (below : Option Value) (v : Value) :
    (overSection below v).asMap?.isNone = v.asMap?.isNone := by
  unfold overSection
  split <;> rfl

/-- A section is in order again once a layer declares it as a mapping. -/
theorem misdeclares_layer (hdiffer : overlay.KeysDiffer) :
    misdeclares (layer base overlay) part =
      if (overlay.field? part).isSome then misdeclares overlay part else misdeclares base part := by
  rw [misdeclares, field?_layer hdiffer]
  cases hfound : overlay.field? part with
  | none => rfl
  | some v => simp [misdeclares, hfound, isNone_asMap?_overSection]

/-- Neither sections nor the settings of a section are declared twice. -/
structure SettingsDiffer (overlay : Entries) : Prop where
  sections : overlay.KeysDiffer
  fields : ∀ part fields, overlay.field? part = some (.map fields) → Entries.KeysDiffer fields

theorem settingsDiffer_of_isUnambiguous (hkeys : (Value.map overlay).isUnambiguous = true) :
    SettingsDiffer overlay := by
  obtain ⟨hdiffer, hvalues⟩ := Value.isUnambiguous_map_iff.mp hkeys
  refine ⟨hdiffer, fun part fields hfound => ?_⟩
  exact (Value.isUnambiguous_map_iff.mp (hvalues _ (Entries.mem_of_field? hfound))).1

/-- A layer gives what it has; for the rest the layers below stand, unless it misdeclares their
section. -/
theorem given?_layer (hdiffer : SettingsDiffer overlay) :
    given? (layer base overlay) key =
      (given? overlay key).or (if misdeclares overlay key.part then none else given? base key) := by
  unfold given? misdeclares
  rw [field?_layer hdiffer.sections]
  cases hfound : overlay.field? key.part with
  | none => rfl
  | some v =>
      cases v with
      | map fields =>
          have hfields : Entries.KeysDiffer fields := hdiffer.fields _ _ hfound
          cases hbelow : base.field? key.part with
          | none => simp [overSection, Value.asMap?]
          | some below =>
              cases below with
              | map under => simp [overSection, Value.asMap?, field?_update hfields]
              | _ => simp [overSection, Value.asMap?]
      | _ => simp [overSection, Value.asMap?]

/-! ## Layers of a single setting -/

/-- A value, unless it is null. -/
def notNull? (v : Value) : Option Value := if v.isNull then none else some v

theorem settingsDiffer_single (key : SettingKey) (v : Value) : SettingsDiffer (single key v) where
  sections := List.pairwise_singleton _ _
  fields part fields hfound := by
    have heq := List.mem_singleton.mp (Entries.mem_of_field? hfound)
    cases heq
    exact List.pairwise_singleton _ _

theorem given?_single_self (key : SettingKey) (v : Value) : given? (single key v) key = some v := by
  simp [given?, single, Entries.field?_cons_self]

theorem given?_single_of_ne (v : Value) (hne : other ≠ key) : given? (single other v) key = none := by
  unfold given? single
  by_cases hpart : other.part = key.part
  · have hname : Value.str other.name ≠ .str key.name := by
      intro hname
      obtain ⟨part, name⟩ := other
      obtain rfl : part = key.part := hpart
      obtain rfl : name = key.name := Value.str.inj hname
      exact hne rfl
    rw [hpart, Entries.field?_cons_self]
    exact Entries.field?_cons_of_ne [] hname
  · rw [Entries.field?_cons_of_ne [] fun hkey => hpart (Value.str.inj hkey)]
    rfl

theorem misdeclares_single (key : SettingKey) (v : Value) (part : String) :
    misdeclares (single key v) part = false := by
  unfold misdeclares single
  by_cases hpart : key.part = part
  · rw [hpart, Entries.field?_cons_self]
    rfl
  · rw [Entries.field?_cons_of_ne [] fun hkey => hpart (Value.str.inj hkey)]
    rfl

/-- A setting that is given counts; one that is not changes nothing. -/
theorem given?_layerIfGiven_self (sections : Entries) (key : SettingKey) (v : Value) :
    given? (layerIfGiven sections key v) key = (notNull? v).or (given? sections key) := by
  unfold layerIfGiven notNull?
  split
  · rfl
  · rw [given?_layer (settingsDiffer_single key v), given?_single_self]
    rfl

theorem given?_layerIfGiven_of_ne (sections : Entries) (v : Value) (hne : other ≠ key) :
    given? (layerIfGiven sections other v) key = given? sections key := by
  unfold layerIfGiven
  split
  · rfl
  · rw [given?_layer (settingsDiffer_single other v), given?_single_of_ne v hne,
      misdeclares_single]
    rfl

/-- A setting that is given puts its section in order. -/
theorem misdeclares_layerIfGiven (sections : Entries) (key : SettingKey) (v : Value)
    (part : String) :
    misdeclares (layerIfGiven sections key v) part =
      (misdeclares sections part && !(key.part == part && (notNull? v).isSome)) := by
  unfold layerIfGiven notNull?
  split
  · simp
  · rw [misdeclares_layer (settingsDiffer_single key v).sections, misdeclares_single]
    by_cases hpart : key.part = part
    · simp [single, hpart, Entries.field?_cons_self]
    · have habsent : Entries.field? (single key v) part = none :=
        Entries.field?_cons_of_ne [] fun hkey => hpart (Value.str.inj hkey)
      simp [habsent, hpart]

/-! ## Settings from what is given -/

/-- Settings that hold, each for itself, what is given to it, or else its default. -/
structure Settles (given : SettingKey → Option Value) (s : Settings) : Prop where
  format : (given .format).elim (.ok default.format) coerceFormat = .ok s.format
  indent : (given .indent).elim (.ok default.indent) coerceIndent = .ok s.indent
  timeout : (given .timeout).elim (.ok default.timeout) coerceTimeout = .ok s.timeout

theorem both_eq_ok_iff {α β γ : Type} {f : α → β → γ} {x : Except (List Mismatch) α}
    {y : Except (List Mismatch) β} {c : γ} :
    both f x y = .ok c ↔ ∃ a b, x = .ok a ∧ y = .ok b ∧ f a b = c := by
  cases x <;> cases y <;> simp [both]

theorem coerceField_eq_ok_iff {α : Type} {default a : α} {coerce : Value → Coerced α} :
    coerceField key default coerce fields = .ok a ↔
      (Entries.field? fields key.name).elim (.ok default) coerce = .ok a := by
  unfold coerceField
  cases Entries.field? fields key.name with
  | none => simp
  | some v =>
      dsimp only [Option.elim]
      cases coerce v <;> simp

theorem fieldsOf_eq_ok_iff :
    fieldsOf part sections = .ok fields ↔
      misdeclares sections part = false ∧
        fields = (((sections.field? part).bind Value.asMap?).getD []) := by
  unfold fieldsOf misdeclares
  cases sections.field? part with
  | none => simp [eq_comm]
  | some v => cases v <;> simp [Value.asMap?, eq_comm]

/-- The fields of a section give what the sections give. -/
theorem field?_fields (sections : Entries) (key : SettingKey) :
    Entries.field? (((sections.field? key.part).bind Value.asMap?).getD []) key.name =
      given? sections key := by
  unfold given?
  cases sections.field? key.part with
  | none => rfl
  | some v => cases v <;> rfl

/-- Sections make settings exactly if each of them is a mapping or missing, and what they give to
each setting is accepted. -/
theorem ofEntries_eq_ok_iff {s : Settings} :
    ofEntries sections = .ok s ↔
      misdeclares sections SettingKey.format.part = false ∧
      misdeclares sections SettingKey.timeout.part = false ∧ Settles (given? sections) s := by
  have hindent := field?_fields sections .indent
  simp only [ofEntries, both_eq_ok_iff, bind_eq_ok_iff, fieldsOf_eq_ok_iff, coerceField_eq_ok_iff]
  constructor
  · rintro ⟨_, _, ⟨_, ⟨houtput, rfl⟩, _, _, hformat, hindented, rfl⟩, ⟨_, ⟨hloader, rfl⟩, htimeout⟩, rfl⟩
    rw [field?_fields] at hformat htimeout
    exact ⟨houtput, hloader, hformat, hindent ▸ hindented, htimeout⟩
  · rintro ⟨houtput, hloader, hformat, hindented, htimeout⟩
    rw [← field?_fields] at hformat htimeout
    exact ⟨_, _, ⟨_, ⟨houtput, rfl⟩, _, _, hformat, hindent.symm ▸ hindented, rfl⟩,
      ⟨_, ⟨hloader, rfl⟩, htimeout⟩, rfl⟩

end ApiContract.Settings
