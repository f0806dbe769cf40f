import ApiContract.Proofs.Reference.Failures
import ApiContract.Proofs.Reference.Locations
import ApiContract.Proofs.Value.Erasure

/-!
# Number keys and the expansion

In YAML a key without quotes may be a whole number: `404:` and `"404":` declare different keys.
`Value.spellOut` takes the difference away and writes every number key as a text.  The segments of a
pointer are texts, and a step looks for its segment among the text keys only.  So a pointer that
passes no number key leads to the same place before and after the keys are spelled out; one that
passes a number key dangles before, and may lead somewhere after.

The main statement: where `inline` succeeds on a description with its number keys spelled out, it
succeeds with the same result, up to the spelling, on the description as it is, unless a reference
that can be reached passes a number key; and then it reports such references only.
-/

namespace ApiContract

/-! ## Spelling out -/

/-- A key with a number, if it can be written, in place of the number's text. -/
def Value.spellKey : Value → Value
  | .int n => if Json.isWritableInt n then .str (toString n) else .int n
  | key => key

mutual

/-- A value with all number keys of its mappings written as texts. -/
def Value.spellOut : Value → Value
  | .list items => .list (spellOutItems items)
  | .map entries => .map (spellOutEntries entries)
  | .pair first second => .pair first.spellOut second.spellOut
  | v => v

def Value.spellOutItems : List Value → List Value
  | [] => []
  | v :: rest => v.spellOut :: spellOutItems rest

def Value.spellOutEntries : List (Value × Value) → List (Value × Value)
  | [] => []
  | (key, v) :: rest => (key.spellKey, v.spellOut) :: spellOutEntries rest

end

namespace Value

theorem spellOut_list (items : List Value) :
    (Value.list items).spellOut = .list (items.map spellOut) := by
  rw [spellOut]
  induction items with
  | nil => rfl
  | cons v rest ih => simpa [spellOutItems] using ih

theorem spellOut_map (entries : Entries) :
    (Value.map entries).spellOut =
      .map (entries.map fun entry => (entry.1.spellKey, entry.2.spellOut)) := by
  rw [spellOut]
  induction entries with
  | nil => rfl
  | cons entry rest ih => simpa [spellOutEntries] using ih

/-- Only a text is spelled out as a text. -/
theorem eq_str_of_spellOut {v : Value} {s : String} (hspelled : v.spellOut = .str s) :
    v = .str s := by
  cases v <;> simp_all [spellOut]

@[simp] theorem spellKey_str (s : String) : (Value.str s).spellKey = .str s := rfl

theorem spellKey_eq_str_iff {key : Value} {name : String} :
    key.spellKey = .str name ↔
      key = .str name ∨ ∃ n, key = .int n ∧ Json.isWritableInt n = true ∧ toString n = name := by
  cases key with
  | int n =>
      rw [spellKey]
      split <;> simp_all
  | _ => simp [spellKey]

end Value

namespace Reference

open Value (spellOut spellKey)

variable {root node part target : Value} {edge : Step} {segment : List Char}
  {path : List (List Char)}

/-! ## Look-up in a mapping that is spelled out -/

/-- A mapping with its number keys and its values spelled out. -/
abbrev spelledEntries (entries : Entries) : Entries :=
  entries.map fun entry => (entry.1.spellKey, entry.2.spellOut)

theorem mem_spelledEntries {entries : Entries} {key v : Value} (hentry : (key, v) ∈ entries) :
    (key.spellKey, v.spellOut) ∈ spelledEntries entries :=
  List.mem_map.mpr ⟨_, hentry, rfl⟩

theorem field?_spelledEntries {entries : Entries} {name : String}
    (hnumber : ∀ n v, (.int n, v) ∈ entries → toString n ≠ name) :
    Entries.field? (spelledEntries entries) name =
      (Entries.field? entries name).map spellOut := by
  have hsame : ∀ entry ∈ entries, entry.1.spellKey.same (.str name) = entry.1.same (.str name) := by
    intro entry hentry
    rw [Bool.eq_iff_iff, Value.same_str_iff, Value.same_str_iff, Value.spellKey_eq_str_iff]
    constructor
    · intro hkey
      rcases hkey with htext | ⟨n, hint, -, hname⟩
      · exact htext
      · exact absurd hname (hnumber n entry.2 (hint ▸ hentry))
    · exact Or.inl
  unfold Entries.field? Entries.get?
  rw [List.find?_map, Option.map_map, Option.map_map]
  have hfind : entries.find? (fun entry => entry.1.spellKey.same (.str name)) =
      entries.find? fun entry => entry.1.same (.str name) := by
    rw [← List.head?_filter, ← List.head?_filter, List.filter_congr hsame]
  exact congrArg (Option.map fun entry => entry.2.spellOut) hfind

/-- A number with its sign is not the name of the field that holds a reference. -/
theorem toString_ne_refField (n : Int) : toString n ≠ refField := by
  intro heq
  have hlist := congrArg String.toList heq
  cases n with
  | ofNat m =>
      have hmem : '$' ∈ (toString m).toList := by
        have hall : (toString m).toList = refField.toList := hlist
        rw [hall]
        decide
      exact not_mem_toString rfl hmem
  | negSucc m =>
      have hsign : (toString (Int.negSucc m)).toList = '-' :: (toString (m + 1)).toList := by
        simp [toString, Int.repr]
      rw [hsign] at hlist
      cases hlist

/-- Spelling out keeps whether a node holds a reference, and which. -/
theorem heldRef?_spellOut (node : Value) : heldRef? node.spellOut = (heldRef? node).map spellOut := by
  cases node with
  | map entries =>
      rw [Value.spellOut_map]
      exact field?_spelledEntries fun n _ _ => toString_ne_refField n
  | list items =>
      rw [Value.spellOut_list]
      rfl
  | _ => rfl

theorem heldRef?_spellOut_eq_none_iff : heldRef? node.spellOut = none ↔ heldRef? node = none := by
  rw [heldRef?_spellOut, Option.map_eq_none_iff]

theorem heldRef?_spellOut_of_str {s : String} (hheld : heldRef? node = some (.str s)) :
    heldRef? node.spellOut = some (.str s) := by
  rw [heldRef?_spellOut, hheld]
  rfl

/-! ## Pointers in a value that is spelled out -/

/-- A pointer comes to a mapping in which the next segment is spelled like a number key. -/
inductive PassesNumber : Value → List (List Char) → Prop
  | here {entries : Entries} {n : Int} {v : Value} {segment : List Char} {path : List (List Char)}
      (hentry : (.int n, v) ∈ entries) (hspelled : toString n = String.ofList segment) :
      PassesNumber (.map entries) (segment :: path)
  | later {node part : Value} {segment : List Char} {path : List (List Char)}
      (hstep : step node segment = .ok part) (hrest : PassesNumber part path) :
      PassesNumber node (segment :: path)

theorem step_list_spellOut (items : List Value) (segment : List Char) :
    step (Value.list items).spellOut segment = (step (.list items) segment).map spellOut := by
  rw [Value.spellOut_list, step, step, List.length_map]
  have hitem : ∀ index : Option Nat, (index.bind fun i => (items.map spellOut)[i]?) =
      (index.bind fun i => items[i]?).map spellOut := by
    intro index
    cases index <;> simp
  cases Text.wholeNumber? 10 segment with
  | none => rfl
  | some index =>
      rw [Option.bind_some, Option.bind_some, hitem]
      cases (Value.position? items.length index).bind fun i => items[i]? <;> rfl

/-- A step that leads somewhere leads to the same part when all is spelled out. -/
theorem step_spellOut (hspelled : IsAddressable node.spellOut)
    (hstep : step node segment = .ok part) : step node.spellOut segment = .ok part.spellOut := by
  cases node with
  | list items => rw [step_list_spellOut, hstep]; rfl
  | map entries =>
      rw [Value.spellOut_map] at hspelled ⊢
      have hentry := Entries.mem_of_field? (step_map_eq_ok_iff.mp hstep)
      apply step_map_eq_ok_iff.mpr
      apply (Value.isUnambiguous_map_iff.mp hspelled.unambiguous).1.field?_of_mem
      exact mem_spelledEntries hentry
  | _ => simp [step] at hstep

/-- A step that leads somewhere only when all is spelled out stands on a number key. -/
theorem step_of_step_spellOut {path : List (List Char)} {spelled : Value}
    (hstep : step node.spellOut segment = .ok spelled) :
    (∃ part, step node segment = .ok part ∧ part.spellOut = spelled) ∨
      PassesNumber node (segment :: path) := by
  cases node with
  | list items =>
      rw [step_list_spellOut] at hstep
      cases hpart : step (.list items) segment with
      | error e => simp [hpart, Except.map] at hstep
      | ok part =>
          rw [hpart] at hstep
          exact .inl ⟨part, rfl, Except.ok.inj hstep⟩
  | map entries =>
      by_cases hnumber : ∃ n v, (.int n, v) ∈ entries ∧ toString n = String.ofList segment
      · obtain ⟨n, v, hentry, hspelled⟩ := hnumber
        exact .inr (.here hentry hspelled)
      · have hplain : ∀ n v, (.int n, v) ∈ entries → toString n ≠ String.ofList segment :=
          fun n v hentry heq => hnumber ⟨n, v, hentry, heq⟩
        rw [Value.spellOut_map] at hstep
        have hfield := step_map_eq_ok_iff.mp hstep
        rw [field?_spelledEntries hplain] at hfield
        obtain ⟨part, hpart, rfl⟩ := Option.map_eq_some_iff.mp hfield
        exact .inl ⟨part, step_map_eq_ok_iff.mpr hpart, rfl⟩
  | _ => simp [step, spellOut] at hstep

theorem follow_spellOut (hspelled : IsAddressable node.spellOut)
    (hfollow : follow node path = .ok target) : follow node.spellOut path = .ok target.spellOut := by
  induction path generalizing node with
  | nil =>
      cases hfollow
      rfl
  | cons segment rest ih =>
      obtain ⟨part, hstep, hrest⟩ := follow_cons_eq_ok_iff.mp hfollow
      have hspelledStep := step_spellOut hspelled hstep
      obtain ⟨edge, hpart⟩ := exists_part_of_step hspelledStep
      exact follow_cons_eq_ok_iff.mpr ⟨_, hspelledStep, ih (hspelled.part hpart) hrest⟩

theorem follow_of_follow_spellOut {spelled : Value}
    (hfollow : follow node.spellOut path = .ok spelled) :
    (∃ target, follow node path = .ok target ∧ target.spellOut = spelled) ∨
      PassesNumber node path := by
  induction path generalizing node with
  | nil => exact .inl ⟨node, rfl, Except.ok.inj hfollow⟩
  | cons segment rest ih =>
      obtain ⟨next, hstep, hrest⟩ := follow_cons_eq_ok_iff.mp hfollow
      rcases step_of_step_spellOut hstep with ⟨part, hpart, rfl⟩ | hpasses
      · rcases ih hrest with ⟨target, htarget, hspelled⟩ | hpasses
        · exact .inl ⟨target, follow_cons_eq_ok_iff.mpr ⟨part, hpart, htarget⟩, hspelled⟩
        · exact .inr (.later hpart hpasses)
      · exact .inr hpasses

/-- A number key and the text that spells it do not stand in one mapping, so a step on a number key
leads nowhere. -/
theorem step_ne_ok_of_number {entries : Entries} {n : Int} {v : Value}
    (hspelled : IsAddressable (Value.map entries).spellOut) (hentry : (.int n, v) ∈ entries)
    (hsegment : toString n = String.ofList segment) : step (.map entries) segment ≠ .ok part := by
  intro hstep
  have hother := Entries.mem_of_field? (step_map_eq_ok_iff.mp hstep)
  rw [Value.spellOut_map] at hspelled
  have hkeys : (entries.map fun entry => entry.1.spellKey).Nodup := by
    simpa [Entries.keys, Function.comp_def] using hspelled.nodup_keys
  obtain ⟨name, hname⟩ :=
    (Value.hasTextKeys_map_iff.mp hspelled.textKeys _ (mem_spelledEntries hentry)).1
  dsimp only at hname
  have hsame : (Value.int n).spellKey = (Value.str (String.ofList segment)).spellKey := by
    rcases Value.spellKey_eq_str_iff.mp hname with htext | ⟨m, hm, -, rfl⟩
    · cases htext
    · rw [hname, ← hsegment, Value.int.inj hm, Value.spellKey_str]
  exact Value.noConfusion (congrArg Prod.fst (List.inj_on_of_nodup_map hkeys hentry hother hsame))

theorem PassesNumber.follow_ne_ok (hpasses : PassesNumber node path)
    (hspelled : IsAddressable node.spellOut) : follow node path ≠ .ok target := by
  induction hpasses with
  | here hentry hsegment =>
      intro hfollow
      obtain ⟨part, hstep, -⟩ := follow_cons_eq_ok_iff.mp hfollow
      exact step_ne_ok_of_number hspelled hentry hsegment hstep
  | later hstep _ ih =>
      intro hfollow
      obtain ⟨part, hpart, hrest⟩ := follow_cons_eq_ok_iff.mp hfollow
      obtain rfl := Except.ok.inj (hstep.symm.trans hpart)
      obtain ⟨edge, hedge⟩ := exists_part_of_step (step_spellOut hspelled hstep)
      exact ih (hspelled.part hedge) hrest

/-- A reference is a pointer that passes a number key of the description. -/
def RefPassesNumber (root ref : Value) : Prop :=
  ∃ path, parse? ref = some path ∧ PassesNumber root path

theorem resolve_spellOut {s : String} (hspelled : IsAddressable root.spellOut)
    (hresolve : resolve root (.str s) = .ok target) :
    resolve root.spellOut (.str s) = .ok target.spellOut := by
  unfold resolve at hresolve ⊢
  split at hresolve
  · cases hresolve
  · exact follow_spellOut hspelled hresolve

theorem resolve_of_resolve_spellOut {s : String} {spelled : Value}
    (hresolve : resolve root.spellOut (.str s) = .ok spelled) :
    (∃ target, resolve root (.str s) = .ok target ∧ target.spellOut = spelled) ∨
      RefPassesNumber root (.str s) := by
  unfold resolve at hresolve ⊢
  split at hresolve
  · cases hresolve
  · rename_i path hparse
    rcases follow_of_follow_spellOut hresolve with htarget | hpasses
    · exact .inl htarget
    · exact .inr ⟨path, hparse, hpasses⟩

theorem RefPassesNumber.exists_error {ref : Value} (hpasses : RefPassesNumber root ref)
    (hspelled : IsAddressable root.spellOut) : ∃ e, resolve root ref = .error e := by
  obtain ⟨path, hparse, hpasses⟩ := hpasses
  cases hresolve : resolve root ref with
  | error e => exact ⟨e, rfl⟩
  | ok target =>
      rw [resolve, hparse] at hresolve
      exact absurd hresolve (hpasses.follow_ne_ok hspelled)

/-! ## Reaching and expanding -/

/-- A step with its key spelled out. -/
def Step.spellOut : Step → Step
  | .key k => .key k.spellKey
  | .index i => .index i

theorem Part.spellOut (hpart : Part node edge part) :
    Part node.spellOut edge.spellOut part.spellOut := by
  cases hpart with
  | item hitem =>
      rw [Value.spellOut_list]
      apply Part.item
      rw [List.getElem?_map, hitem]
      rfl
  | entry hentry =>
      rw [Value.spellOut_map]
      exact .entry (mem_spelledEntries hentry)

theorem Reachable.spellOut (hspelled : IsAddressable root.spellOut) (hnode : Reachable root node) :
    Reachable root.spellOut node.spellOut := by
  induction hnode with
  | root => exact .root
  | part _ hplain hpart ih => exact ih.part (heldRef?_spellOut_eq_none_iff.mpr hplain) hpart.spellOut
  | target _ hheld hresolve ih =>
      obtain ⟨s, rfl⟩ := exists_str_of_resolve hresolve
      exact ih.target (heldRef?_spellOut_of_str hheld) (resolve_spellOut hspelled hresolve)

/-- Where nothing dangles once all is spelled out, a dangling reference passes a number key. -/
theorem IsDangling.passesNumber {ref : Value} (hspelled : IsAddressable root.spellOut)
    (hsucceeds : (expand root.spellOut).failures = []) (hdangling : IsDangling root node ref) :
    RefPassesNumber root ref := by
  have hreachable := hdangling.reachable.spellOut hspelled
  have hheld : heldRef? node.spellOut = some ref.spellOut := by
    rw [heldRef?_spellOut, hdangling.held]
    rfl
  cases hresolve : resolve root.spellOut ref.spellOut with
  | error e =>
      have hreported := exists_mem_failures_expand_iff.mpr
        ⟨_, _, ⟨hreachable, hheld, e, hresolve⟩, rfl⟩
      obtain ⟨failure, hfailure, -⟩ := hreported
      simp [hsucceeds] at hfailure
  | ok spelled =>
      obtain ⟨s, hs⟩ := exists_str_of_resolve hresolve
      obtain rfl := Value.eq_str_of_spellOut hs
      obtain ⟨e, herror⟩ := hdangling.unresolved
      rcases resolve_of_resolve_spellOut hresolve with ⟨target, hok, -⟩ | hpasses
      · simp [herror] at hok
      · exact hpasses

/-- A plain node is walked alike before and after it is spelled out if its parts are. -/
theorem spellOut_node_walk {act other : Location → Value → Value → Expansion Value}
    {place otherPlace : Location} (hplain : heldRef? node = none)
    (hparts : ∀ edge part, Part node edge part → (walk act (edge :: place) part).node.spellOut =
      (walk other (edge.spellOut :: otherPlace) part.spellOut).node) :
    (walk act place node).node.spellOut = (walk other otherPlace node.spellOut).node := by
  have hplainSpelled := heldRef?_spellOut_eq_none_iff.mpr hplain
  cases node with
  | list items =>
      rw [Value.spellOut_list, walk_list, walk_list, Value.spellOut_list]
      refine congrArg Value.list (List.ext_getElem (by simp) fun i hi _ => ?_)
      simp only [List.getElem_map, List.getElem_mapIdx]
      exact hparts _ _ (.item (List.getElem?_eq_getElem _))
  | map entries =>
      rw [Value.spellOut_map] at hplainSpelled ⊢
      rw [walk_map hplain, walk_map hplainSpelled, Value.spellOut_map]
      simp only [List.map_map]
      refine congrArg Value.map (List.map_congr_left fun entry hentry => ?_)
      exact congrArg (Prod.mk entry.1.spellKey) (hparts _ _ (.entry hentry))
  | _ =>
      rw [walk_scalar rfl, walk_scalar (by simp [Value.spellOut, Value.shape])]

/-- Where neither expansion fails, the one is the other spelled out. -/
theorem spellOut_node_expandUnder {active : List String} {place otherPlace : Location}
    (hspelled : IsAddressable root.spellOut) (hinside : Inside root node)
    (hinsideSpelled : Inside root.spellOut node.spellOut)
    (hsucceeds : (expandUnder root active place node).failures = []) :
    (expandUnder root active place node).node.spellOut =
      (expandUnder root.spellOut active otherPlace node.spellOut).node := by
  induction active, node, hinside using visit_induction generalizing place otherPlace with
  | plain active node _ hplain ih =>
      rw [expandUnder_eq_walk, expandUnder_eq_walk]
      apply spellOut_node_walk hplain
      intro edge part hpart
      rw [← expandUnder_eq_walk, ← expandUnder_eq_walk]
      exact ih edge part hpart (hinsideSpelled.part hpart.spellOut)
        (failures_eq_nil_of_part hplain hsucceeds hpart)
  | kept active node _ s hheld hs =>
      rw [expandUnder_of_active hheld hs, expandUnder_of_active (heldRef?_spellOut_of_str hheld) hs]
  | dangling active node hinside ref e hheld hactive hresolve =>
      rw [expandUnder_of_dangling hinside hheld hactive hresolve] at hsucceeds
      cases hsucceeds
  | resolved active node hinside s target hheld hs hresolve ih =>
      have hresolveSpelled := resolve_spellOut hspelled hresolve
      rw [expandUnder_of_resolved hinside hheld hs hresolve] at hsucceeds ⊢
      rw [expandUnder_of_resolved hinsideSpelled (heldRef?_spellOut_of_str hheld) hs hresolveSpelled]
      exact ih (.target hresolveSpelled) hsucceeds

end Reference

end ApiContract

namespace ApiContract.Description

open Reference

variable {root spelled result : Value}

/-- A description whose keys are texts, and a variant of it in which keys that spell a whole number
may be that number. -/
structure Spells (spelled root : Value) : Prop where
  addressable : IsAddressable spelled
  spellOut_eq : root.spellOut = spelled

/-- No reference that can be reached passes a number key. -/
def PassesNoNumber (root : Value) : Prop :=
  ∀ node ref, Reachable root node → heldRef? node = some ref → ¬ RefPassesNumber root ref

/-- Where `inline` succeeds on a description whose keys are texts, it succeeds on a variant with
number keys, with the same result up to the spelling of keys, if and only if no reference that can
be reached passes a number key.  All references that it reports otherwise do. -/
theorem inline_respelled (hspells : Spells spelled root)
    (hok : (inline spelled).outcome = .ok result) :
    ((∃ other, (inline root).outcome = .ok other ∧ other.spellOut = result) ↔
      PassesNoNumber root) ∧
    ∀ failures, (inline root).outcome = .error (.references failures) → ∀ failure ∈ failures,
      ∃ bad ref, IsDangling root bad ref ∧ RefPassesNumber root ref ∧ failure.ref = ref.shown := by
  obtain ⟨haddressable, rfl⟩ := hspells
  obtain ⟨hsucceeds, rfl⟩ := outcome_inline_eq_ok_iff.mp hok
  have hpasses : ∀ bad ref, IsDangling root bad ref → RefPassesNumber root ref :=
    fun _ _ hdangling => hdangling.passesNumber haddressable hsucceeds
  refine ⟨⟨fun hother => ?_, fun hnone => ?_⟩, ?_⟩
  · intro node ref hreachable hheld hnumber
    obtain ⟨other, hother, -⟩ := hother
    obtain ⟨hfailures, -⟩ := outcome_inline_eq_ok_iff.mp hother
    have hdangling : IsDangling root node ref :=
      ⟨hreachable, hheld, hnumber.exists_error haddressable⟩
    obtain ⟨failure, hfailure, -⟩ := exists_mem_failures_expand_iff.mpr ⟨_, _, hdangling, rfl⟩
    simp [hfailures] at hfailure
  · have hfailures : (expand root).failures = [] := by
      refine List.eq_nil_iff_forall_not_mem.mpr fun failure hfailure => ?_
      obtain ⟨bad, ref, hdangling, -⟩ :=
        exists_mem_failures_expand_iff.mp ⟨failure, hfailure, rfl⟩
      exact hnone bad ref hdangling.reachable hdangling.held (hpasses bad ref hdangling)
    refine ⟨(expand root).node, outcome_inline_eq_ok_iff.mpr ⟨hfailures, rfl⟩, ?_⟩
    rw [expand_eq_expandUnder] at hfailures ⊢
    rw [expand_eq_expandUnder]
    exact spellOut_node_expandUnder haddressable (.refl root) (.refl _) hfailures
  · intro failures hfails failure hfailure
    obtain ⟨rfl, -⟩ := outcome_inline_eq_error_iff.mp hfails
    obtain ⟨bad, ref, hdangling, hshown⟩ :=
      exists_mem_failures_expand_iff.mp ⟨failure, hfailure, rfl⟩
    exact ⟨bad, ref, hdangling, hpasses bad ref hdangling, hshown.symm⟩

theorem spellKey_of_writable {n : Int} (hn : Json.isWritableInt n = true) :
    (Value.int n).spellKey = .str (toString n) := by
  rw [Value.spellKey, if_pos hn]

/-- A response that refers to a shared one. -/
def answers : Value :=
  .map [
    (.str "responses", .map [(.str "200", .map [(.str "$ref", .str "#/shared")])]),
    (.str "shared", .str "x")]

/-- The description `answers` with the number 200 for a key. -/
def answersByNumber : Value :=
  .map [
    (.str "responses", .map [(.int 200, .map [(.str "$ref", .str "#/shared")])]),
    (.str "shared", .str "x")]

theorem answers_spells : Spells answers answersByNumber where
  addressable := ⟨by decide, by cbv⟩
  spellOut_eq := by
    have hkey : (Value.int 200).spellKey = .str "200" := spellKey_of_writable (by decide +kernel)
    simp [answersByNumber, answers, Value.spellOut, Value.spellOutEntries, hkey]

theorem answers_respelled :
    Spells answers answersByNumber ∧
      (inline answers).outcome =
        .ok (.map [(.str "responses", .map [(.str "200", .str "x")]), (.str "shared", .str "x")]) ∧
      (inline answersByNumber).outcome =
        .ok (.map [(.str "responses", .map [(.int 200, .str "x")]), (.str "shared", .str "x")]) ∧
      PassesNoNumber answersByNumber := by
  have hok : (inline answers).outcome =
      .ok (.map [(.str "responses", .map [(.str "200", .str "x")]), (.str "shared", .str "x")]) := by
    cbv
  have hother : (inline answersByNumber).outcome =
      .ok (.map [(.str "responses", .map [(.int 200, .str "x")]), (.str "shared", .str "x")]) := by
    cbv
  have hkey : (Value.int 200).spellKey = .str "200" := spellKey_of_writable (by decide +kernel)
  refine ⟨answers_spells, hok, hother, (inline_respelled answers_spells hok).1.mp ⟨_, hother, ?_⟩⟩
  simp [Value.spellOut, Value.spellOutEntries, hkey]

/-- A reference to what stands under the text `404`. -/
def shelved : Value :=
  .map [
    (.str "a", .map [(.str "404", .str "x")]),
    (.str "b", .map [(.str "$ref", .str "#/a/404")])]

/-- The description `shelved` with the number 404 for a key. -/
def shelvedByNumber : Value :=
  .map [
    (.str "a", .map [(.int 404, .str "x")]),
    (.str "b", .map [(.str "$ref", .str "#/a/404")])]

/-- The reference leads somewhere while the key that it passes is a text, and dangles once the key is
the number. -/
theorem shelved_resolves_by_text_only :
    Spells shelved shelvedByNumber ∧
      (inline shelved).outcome =
        .ok (.map [(.str "a", .map [(.str "404", .str "x")]), (.str "b", .str "x")]) ∧
      ¬ ∃ other, (inline shelvedByNumber).outcome = .ok other := by
  have hkey : (Value.int 404).spellKey = .str "404" := spellKey_of_writable (by decide +kernel)
  refine ⟨⟨⟨by decide, by cbv⟩, ?_⟩, by cbv, ?_⟩
  · simp [shelvedByNumber, shelved, Value.spellOut, Value.spellOutEntries, hkey]
  · intro hother
    obtain ⟨other, hother⟩ := hother
    have hfailures : (expand shelvedByNumber).failures ≠ [] := by decide +kernel
    exact hfailures (outcome_inline_eq_ok_iff.mp hother).1

end ApiContract.Description
