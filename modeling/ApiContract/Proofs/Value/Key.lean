import ApiContract.Proofs.Binary64.Shortest
import ApiContract.Proofs.Schema.Unambiguous

/-!
# Keys

Keys are compared by what they stand for: a number by its value, whatever its kind, and a time with
an offset by its instant.  So two keys are the same exactly if they have one *form*, and being the
same is an equivalence.  A mapping is a *table*: what its keys are can be a key, and no two of them
are the same; so what is found under a key is what is declared under it.
-/

namespace ApiContract

/-- What a key stands for. -/
inductive KeyForm where
  | number (units : Int)
  | instant (micros : Int)
  | clock (micros : Int)
  | pair (first second : KeyForm)
  | plain (v : Value)

namespace Binary64

variable {x y : Binary64}

def keyForm : Binary64 → KeyForm
  | .finite negative units => .number (signedUnits negative units)
  | x => .plain (.float x)

theorem signedUnits_eq_iff {s t : Bool} {a b : Nat} :
    signedUnits s a = signedUnits t b ↔ (s = t ∧ a = b) ∨ (a = 0 ∧ b = 0) := by
  cases s <;> cases t <;> simp only [signedUnits, if_true, if_false, Bool.false_eq_true] <;>
    simp only [true_and, false_and, false_or, reduceCtorEq] <;> omega

theorem same_iff_keyForm : x.same y = true ↔ x.keyForm = y.keyForm := by
  cases x <;> cases y <;> simp [same, isZero, keyForm, signedUnits_eq_iff]

theorem isInt_iff_keyForm {n : Int} : x.isInt n = true ↔ .number (n * unitsPerOne) = x.keyForm := by
  cases x with
  | finite negative units =>
      rw [isInt, beq_iff_eq, keyForm, KeyForm.number.injEq]
      exact eq_comm
  | _ => simp only [isInt, keyForm, reduceCtorEq, Bool.false_eq_true]

theorem mul_unitsPerOne_inj {m n : Int} :
    m * (unitsPerOne : Int) = n * (unitsPerOne : Int) ↔ m = n := by
  exact Int.mul_eq_mul_right_iff (Int.natCast_ne_zero.mpr unitsPerOne_pos.ne')

end Binary64

namespace Timestamp

def keyForm (t : Timestamp) : KeyForm :=
  match t.offset with
  | none => .clock t.clock
  | some minutes => .instant (t.clock - minutes * 60000000)

theorem same_iff_keyForm {t u : Timestamp} : t.same u = true ↔ t.keyForm = u.keyForm := by
  unfold same keyForm
  cases t.offset <;> cases u.offset <;> simp

end Timestamp

namespace Value

def keyForm : Value → KeyForm
  | .bool b => .number (b.toInt * Binary64.unitsPerOne)
  | .int n => .number (n * Binary64.unitsPerOne)
  | .float x => x.keyForm
  | .time t => t.keyForm
  | .pair a b => .pair a.keyForm b.keyForm
  | v => .plain v

/-- The form of a key that is no pair.  Only numbers are the same as keys of another kind. -/
theorem same_iff_keyForm_of_single {a b : Value} (ha : a.isKey = true) (hb : b.isKey = true)
    (hsingle : ∀ first second, a ≠ .pair first second) :
    a.same b = true ↔ a.keyForm = b.keyForm := by
  cases a with
  | pair first second => exact absurd rfl (hsingle first second)
  | list _ | map _ | set _ => cases ha
  | bool p =>
      cases b with
      | list _ | map _ | set _ => cases hb
      | bool q =>
          rw [same, keyForm, keyForm, KeyForm.number.injEq, Binary64.mul_unitsPerOne_inj]
          cases p <;> cases q <;> decide
      | int n =>
          rw [same, keyForm, keyForm, KeyForm.number.injEq, Binary64.mul_unitsPerOne_inj, beq_iff_eq]
          exact eq_comm
      | float x => rw [same, keyForm, keyForm, Binary64.isInt_iff_keyForm]
      | time t =>
          cases h : t.offset <;>
            simp only [same, keyForm, Timestamp.keyForm, h, reduceCtorEq]
      | _ => simp only [same, keyForm, reduceCtorEq]
  | int n =>
      cases b with
      | list _ | map _ | set _ => cases hb
      | bool q =>
          rw [same, keyForm, keyForm, KeyForm.number.injEq, Binary64.mul_unitsPerOne_inj, beq_iff_eq]
      | int m =>
          rw [same, keyForm, keyForm, KeyForm.number.injEq, Binary64.mul_unitsPerOne_inj, beq_iff_eq]
      | float x => rw [same, keyForm, keyForm, Binary64.isInt_iff_keyForm]
      | time t =>
          cases h : t.offset <;>
            simp only [same, keyForm, Timestamp.keyForm, h, reduceCtorEq]
      | _ => simp only [same, keyForm, reduceCtorEq]
  | float x =>
      cases b with
      | list _ | map _ | set _ => cases hb
      | bool q =>
          rw [same, keyForm, keyForm, Binary64.isInt_iff_keyForm]
          exact eq_comm
      | int n =>
          rw [same, keyForm, keyForm, Binary64.isInt_iff_keyForm]
          exact eq_comm
      | float y => rw [same, keyForm, keyForm, Binary64.same_iff_keyForm]
      | time t =>
          cases x <;> cases h : t.offset <;>
            simp only [same, keyForm, Binary64.keyForm, Timestamp.keyForm, h, reduceCtorEq]
      | _ =>
          cases x <;>
            simp only [same, keyForm, Binary64.keyForm, reduceCtorEq, KeyForm.plain.injEq]
  | time t =>
      cases b with
      | list _ | map _ | set _ => cases hb
      | float x =>
          cases x <;> cases h : t.offset <;>
            simp only [same, keyForm, Binary64.keyForm, Timestamp.keyForm, h, reduceCtorEq]
      | time u => rw [same, keyForm, keyForm, Timestamp.same_iff_keyForm]
      | _ => cases h : t.offset <;> simp only [same, keyForm, Timestamp.keyForm, h, reduceCtorEq]
  | _ =>
      cases b with
      | list _ | map _ | set _ => cases hb
      | float x =>
          cases x <;>
            simp only [same, keyForm, Binary64.keyForm, reduceCtorEq, KeyForm.plain.injEq]
      | time t =>
          cases h : t.offset <;>
            simp only [same, keyForm, Timestamp.keyForm, h, reduceCtorEq]
      | bool _ | int _ => simp only [same, keyForm, reduceCtorEq]
      | _ => simp [same, keyForm]

/-- Keys are the same exactly if they have one form. -/
theorem same_iff_keyForm {a b : Value} (ha : a.isKey = true) (hb : b.isKey = true) :
    a.same b = true ↔ a.keyForm = b.keyForm := by
  by_cases hpair : ∃ first second, a = .pair first second
  · obtain ⟨first, second, rfl⟩ := hpair
    cases b with
    | list _ | map _ | set _ => cases hb
    | pair other last =>
        rw [isKey, Bool.and_eq_true] at ha hb
        rw [same, Bool.and_eq_true, same_iff_keyForm ha.1 hb.1, same_iff_keyForm ha.2 hb.2,
          keyForm, keyForm, KeyForm.pair.injEq]
    | float x => cases x <;> simp only [same, keyForm, Binary64.keyForm, reduceCtorEq]
    | time t => cases h : t.offset <;> simp only [same, keyForm, Timestamp.keyForm, h, reduceCtorEq]
    | _ => simp only [same, keyForm, reduceCtorEq]
  · exact same_iff_keyForm_of_single ha hb fun first second heq => hpair ⟨first, second, heq⟩
termination_by sizeOf a

theorem same_self_of_isKey {key : Value} (hkey : key.isKey = true) : key.same key = true :=
  (same_iff_keyForm hkey hkey).mpr rfl

/-- What is the same as a key can be a key. -/
theorem isKey_of_same {a b : Value} (ha : a.isKey = true) (hsame : a.same b = true) :
    b.isKey = true := by
  cases b with
  | list _ | map _ | set _ => cases a <;> simp [same, isKey] at hsame ha
  | pair other last =>
      cases a with
      | pair first second =>
          rw [isKey, Bool.and_eq_true] at ha
          rw [same, Bool.and_eq_true] at hsame
          rw [isKey, Bool.and_eq_true]
          exact ⟨isKey_of_same ha.1 hsame.1, isKey_of_same ha.2 hsame.2⟩
      | _ => simp [same] at hsame
  | _ => rfl
termination_by sizeOf a

/-- Keys that are the same as one key are the same. -/
theorem same_of_same {a b c : Value} (ha : a.isKey = true) (hb : b.isKey = true)
    (hc : c.isKey = true) (hac : a.same c = true) (hbc : b.same c = true) : a.same b = true := by
  rw [same_iff_keyForm ha hc] at hac
  rw [same_iff_keyForm hb hc] at hbc
  rw [same_iff_keyForm ha hb, hac, hbc]

end Value

namespace Entries

variable {α : Type} {es : Entries α} {key other : Value} {v : α}

/-- Entries as a mapping has them: what their keys are can be a key, and no two are the same. -/
structure IsTable (es : Entries α) : Prop where
  areKeys : ∀ entry ∈ es, entry.1.isKey = true
  differ : es.KeysDiffer

/-- Whether entries are a table is decided by their keys. -/
theorem IsTable.of_keys {β : Type} {other : Entries β} (htable : es.IsTable)
    (hkeys : other.keys = es.keys) : other.IsTable where
  areKeys entry hentry := by
    have hkey : entry.1 ∈ es.keys := hkeys ▸ List.mem_map_of_mem hentry
    obtain ⟨found, hfound, heq⟩ := List.mem_map.mp hkey
    exact heq ▸ htable.areKeys found hfound
  differ := by
    rw [KeysDiffer, hkeys]
    exact htable.differ

theorem isTable_nil : IsTable ([] : Entries α) := ⟨by simp, List.Pairwise.nil⟩

theorem isTable_cons_iff {entry : Value × α} :
    IsTable (entry :: es) ↔ entry.1.isKey = true ∧
      (∀ other ∈ es, entry.1.same other.1 = false) ∧ es.IsTable := by
  constructor
  · intro htable
    obtain ⟨hfirst, hrest⟩ := List.pairwise_cons.mp htable.differ
    refine ⟨htable.areKeys _ List.mem_cons_self, ?_, ?_, hrest⟩
    · exact fun other hother => hfirst _ (List.mem_map_of_mem hother)
    · exact fun other hother => htable.areKeys _ (List.mem_cons_of_mem _ hother)
  · rintro ⟨hkey, hfirst, hrest⟩
    refine ⟨List.forall_mem_cons.mpr ⟨hkey, hrest.areKeys⟩, List.pairwise_cons.mpr ⟨?_, hrest.differ⟩⟩
    exact List.forall_mem_map.mpr hfirst

/-- What is found under a key is what is declared under it. -/
theorem IsTable.get?_eq_some_iff (htable : es.IsTable) (hkey : key.isKey = true) :
    es.get? key = some v ↔ ∃ entry ∈ es, entry.1.same key = true ∧ entry.2 = v := by
  rw [get?, Option.map_eq_some_iff]
  constructor
  · rintro ⟨entry, hfind, rfl⟩
    have hsame := List.find?_some hfind
    exact ⟨entry, List.mem_of_find?_eq_some hfind, hsame, rfl⟩
  · rintro ⟨entry, hentry, hsame, rfl⟩
    refine ⟨entry, ?_, rfl⟩
    induction es with
    | nil => cases hentry
    | cons first rest ih =>
        obtain ⟨hfirstKey, hfirst, hrest⟩ := isTable_cons_iff.mp htable
        rcases List.mem_cons.mp hentry with rfl | hmem
        · exact List.find?_cons_of_pos hsame
        · rw [List.find?_cons_of_neg, ih hrest hmem]
          -- Two entries that the key is the same as would be the same.
          intro hboth
          have hentryKey := hrest.areKeys _ hmem
          have heq := Value.same_of_same hfirstKey hentryKey hkey hboth hsame
          simp [hfirst entry hmem] at heq

theorem IsTable.filter (htable : es.IsTable) (p : Value × α → Bool) : IsTable (es.filter p) where
  areKeys entry hentry := htable.areKeys entry (List.mem_filter.mp hentry).1
  differ := htable.differ.sublist (List.filter_sublist.map _)

theorem IsTable.insert (htable : es.IsTable) (hkey : key.isKey = true) (v : α) :
    (es.insert key v).IsTable := by
  refine ⟨fun other hother => ?_, htable.differ.insert _ _⟩
  rcases mem_of_mem_insert hother with hold | ⟨-, hnew | hold⟩
  · exact htable.areKeys other hold
  · exact hnew ▸ hkey
  · obtain ⟨former, hformer, heq⟩ := List.mem_map.mp hold
    exact heq ▸ htable.areKeys former hformer

theorem get?_cons (entry : Value × α) (rest : Entries α) (key : Value) :
    get? (entry :: rest) key = if entry.1.same key = true then some entry.2 else rest.get? key := by
  cases hsame : entry.1.same key <;> simp [get?, hsame]

/-- Insertion under a key changes what is found under the keys that are the same, and nothing else. -/
theorem IsTable.get?_insert (htable : es.IsTable) (hkey : key.isKey = true)
    (hother : other.isKey = true) (v : α) :
    (es.insert key v).get? other = if key.same other = true then some v else es.get? other := by
  induction es with
  | nil => rw [Entries.insert, get?_cons]
  | cons entry rest ih =>
      obtain ⟨hentryKey, -, hrest⟩ := isTable_cons_iff.mp htable
      rw [Entries.insert]
      split
      · rename_i hentry
        -- The entry keeps its key, which is the same as the new one.
        have hiff : entry.1.same other = true ↔ key.same other = true := by
          rw [Value.same_iff_keyForm hentryKey hkey] at hentry
          rw [Value.same_iff_keyForm hentryKey hother, Value.same_iff_keyForm hkey hother, hentry]
        simp only [get?_cons, hiff]
        split <;> rfl
      · rename_i hentry
        rw [get?_cons, get?_cons, ih hrest]
        split
        · rename_i hfirst
          rw [if_neg]
          intro hsame
          exact hentry (Value.same_of_same hentryKey hkey hother hfirst hsame)
        · rfl

/-- Entries put one after another into a mapping make a table. -/
theorem isTable_ofList (hkeys : ∀ entry ∈ es, entry.1.isKey = true) : IsTable (ofList es) := by
  unfold ofList
  exact List.foldlRecOn es _ (motive := IsTable) isTable_nil fun _ hacc entry hentry =>
    hacc.insert (hkeys entry hentry) entry.2

end Entries

end ApiContract
