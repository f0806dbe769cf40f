import ApiContract.Proofs.Description.Loading
import ApiContract.Proofs.Json.ReadBack
import ApiContract.Proofs.Value.Document

/-!
# Descriptions are documents

Both readers put mappings together entry by entry, so no key is declared twice in what they give.
In JSON the keys are texts, and in YAML a key that can change is refused.  So whatever is loaded is
a document, and expanding its references leaves one.
-/

namespace ApiContract

open Schema

theorem Value.IsPlain.isDocument {v : Value} (hplain : v.IsPlain) : v.IsDocument := by
  induction hplain with
  | list _ ih => exact .list ih
  | map hdiffer hkeys _ ih =>
      refine .map ⟨fun entry hentry => ?_, hdiffer⟩ ih
      obtain ⟨name, hname⟩ := hkeys entry hentry
      rw [hname]
      rfl
  | _ => exact .atom nofun nofun nofun

theorem isDocument_ofList {es : Entries} (hkeys : ∀ entry ∈ es, entry.1.isKey = true)
    (hvalues : ∀ entry ∈ es, entry.2.IsDocument) : (Value.map (Entries.ofList es)).IsDocument := by
  refine .map (Entries.isTable_ofList hkeys) ?_
  unfold Entries.ofList
  refine List.foldlRecOn es _
    (motive := fun acc : Entries => ∀ entry ∈ acc, entry.2.IsDocument) (List.forall_mem_nil _) ?_
  intro acc hacc entry hentry other hother
  rcases Entries.mem_of_mem_insert hother with hold | ⟨hnew, -⟩
  · exact hacc other hold
  · exact hnew ▸ hvalues entry hentry

/-! ## YAML -/

namespace Yaml

/-- Whatever value an outcome has, it has a property. -/
def Outcome.Yields {α : Type} (P : α → Prop) (x : Outcome α) : Prop := ∀ a, x = .ok a → P a

namespace Outcome

variable {α β γ : Type} {P : α → Prop} {Q : β → Prop} {R : γ → Prop}

theorem Yields.error (e : Nat × Obstacle) : Yields P (.error e) := nofun

theorem Yields.map {f : α → β} {x : Outcome α} (hx : Yields P x) (hf : ∀ a, P a → Q (f a)) :
    Yields Q (x.map f) := by
  intro b hb
  obtain ⟨a, ha, rfl⟩ := map_eq_ok_iff.mp hb
  exact hf a (hx a ha)

theorem Yields.later {x : Outcome α} (rounds : Nat) (hx : Yields P x) :
    Yields P (x.later rounds) :=
  fun a ha => hx a (mapError_eq_ok_iff.mp ha)

theorem Yields.both {f : α → β → γ} {x : Outcome α} {y : Outcome β} (hx : Yields P x)
    (hy : Yields Q y) (hf : ∀ a b, P a → Q b → R (f a b)) : Yields R (both f x y) := by
  intro c hc
  unfold Outcome.both at hc
  split at hc
  · cases hc
    exact hf _ _ (hx _ rfl) (hy _ rfl)
  all_goals cases hc

theorem Yields.all {outcomes : List (Outcome α)} (houtcomes : ∀ x ∈ outcomes, Yields P x) :
    Yields (fun values => ∀ a ∈ values, P a) (all outcomes) := by
  induction outcomes with
  | nil =>
      intro values hvalues
      cases hvalues
      exact nofun
  | cons x rest ih =>
      obtain ⟨hx, hrest⟩ := List.forall_mem_cons.mp houtcomes
      exact hx.both (ih hrest) fun a values ha hvalues => List.forall_mem_cons.mpr ⟨ha, hvalues⟩

end Outcome

open Outcome (Yields)

theorem isDocument_of_scalarValue {tag : Tag} {text : List Char} {v : Value}
    (hvalue : scalarValue tag text = .ok v) : v.IsDocument := by
  have horUnreadable : ∀ {found : Option Value}, (∀ v, found = some v → v.IsDocument) →
      orUnreadable found = .ok v → v.IsDocument := by
    intro found hfound hread
    cases found with
    | none => cases hread
    | some w =>
        cases hread
        exact hfound _ rfl
  cases tag with
  | null | str =>
      cases hvalue
      exact .atom nofun nofun nofun
  | bool | int | float =>
      refine horUnreadable (fun w hw => ?_) hvalue
      obtain ⟨_, -, rfl⟩ := Option.map_eq_some_iff.mp hw
      exact .atom nofun nofun nofun
  | binary =>
      change binaryOf text = .ok v at hvalue
      unfold binaryOf at hvalue
      split at hvalue
      · split at hvalue
        · cases hvalue
          exact .atom nofun nofun nofun
        · cases hvalue
      · cases hvalue
  | timestamp =>
      refine horUnreadable (fun w hw => ?_) hvalue
      unfold timeOf? at hw
      obtain ⟨parts, -, hw⟩ := Option.bind_eq_some_iff.mp hw
      obtain ⟨date, -, hw⟩ := Option.bind_eq_some_iff.mp hw
      split at hw
      · cases hw
        exact .atom nofun nofun nofun
      · obtain ⟨_, -, rfl⟩ := Option.map_eq_some_iff.mp hw
        exact .atom nofun nofun nofun
  | _ => cases hvalue

namespace Node

theorem yields_scalarOutcome (tag : Tag) (n : Node) :
    Yields Value.IsDocument (scalarOutcome tag n) := by
  unfold scalarOutcome
  split
  · exact .error _
  · split
    · exact .error _
    · exact fun v hv => isDocument_of_scalarValue (mapError_eq_ok_iff.mp hv)

theorem yields_keyOutcome (x : Outcome Value) : Yields (·.isKey = true) (keyOutcome x) := by
  unfold keyOutcome
  split
  · split
    · rename_i hkey
      rintro _ ⟨⟩
      exact hkey
    · exact .error _
  · exact .error _
  · exact fun v hv => by simp_all

/-- A mapping is put together from keys that cannot change and values that are documents. -/
theorem yields_entriesValue {entries : List (Outcome Value × Outcome Value)}
    (hvalues : ∀ e ∈ entries, Yields Value.IsDocument e.2) :
    Yields (fun es => (Value.map es).IsDocument) (entriesValue entries) := by
  unfold entriesValue
  have hall : Yields (fun es : Entries => ∀ e ∈ es, e.1.isKey = true ∧ e.2.IsDocument)
      (Outcome.all (entries.map fun e => Outcome.both Prod.mk (keyOutcome e.1) e.2)) := by
    apply Yields.all
    intro x hx
    obtain ⟨e, he, rfl⟩ := List.mem_map.mp hx
    exact (yields_keyOutcome e.1).both (hvalues e he) fun key v hkey hv => ⟨hkey, hv⟩
  exact hall.map fun es hes =>
    isDocument_ofList (fun e he => (hes e he).1) fun e he => (hes e he).2

/-- Pairs are mappings of one entry each. -/
theorem yields_pairs {items : List Node} {part : Node → Outcome Value}
    (hparts : ∀ n, Yields Value.IsDocument (part n)) :
    Yields (fun values => ∀ v ∈ values, v.IsDocument) (Outcome.all (items.map fun
      | .mapping _ [(k, v)] => Outcome.both Value.pair (part k) (part v)
      | _ => .malformed)) := by
  apply Yields.all
  intro x hx
  obtain ⟨item, -, rfl⟩ := List.mem_map.mp hx
  split
  · exact (hparts _).both (hparts _) fun _ _ hfirst hsecond => .pair hfirst hsecond
  · exact .error _

theorem yields_mapping {entries : List (Node × Node)} {key value : Node → Outcome Value}
    (hvalues : ∀ n, Yields Value.IsDocument (value n)) :
    Yields (fun es => (Value.map es).IsDocument) (match mergedEntries? entries with
      | none => .malformed
      | some merged => entriesValue ((merged ++ ownEntries entries).map fun e =>
          (key e.1, value e.2))) := by
  split
  · exact .error _
  · apply yields_entriesValue
    intro e he
    obtain ⟨entry, -, rfl⟩ := List.mem_map.mp he
    exact hvalues entry.2

/-- The value of a node is a document. -/
theorem yields_build (budget : Nat) (atOnce : Bool) (n : Node) :
    Yields Value.IsDocument (n.build budget atOnce) := by
  induction budget generalizing atOnce n with
  | zero =>
      cases n with
      | loop anchor isMapping => exact .error _
      | scalar tag _ | sequence tag _ | mapping tag _ =>
          unfold build
          cases tag
          all_goals first | exact (Yields.error _).later _ | exact yields_scalarOutcome _ _
  | succ budget ih =>
      cases n with
      | loop anchor isMapping => exact .error _
      | scalar tag text =>
          unfold build
          cases tag
          all_goals first | exact (Yields.error _).later _ | exact yields_scalarOutcome _ _
      | sequence tag items =>
          have hlist : Yields (fun values => ∀ v ∈ values, v.IsDocument)
              (Outcome.all (items.map (build budget atOnce))) := by
            apply Yields.all
            intro x hx
            obtain ⟨item, -, rfl⟩ := List.mem_map.mp hx
            exact ih atOnce item
          unfold build
          cases tag
          all_goals
            first
            | exact (hlist.map fun _ => .list).later _
            | exact ((yields_pairs (ih atOnce)).map fun _ => .list).later _
            | exact (Yields.error _).later _
            | exact yields_scalarOutcome _ _
      | mapping tag entries =>
          unfold build
          cases tag
          all_goals
            first
            | exact ((yields_mapping (ih atOnce)).map fun _ hes => hes).later _
            | exact ((yields_mapping (ih atOnce)).map fun _ _ => Value.isDocument_set _).later _
            | exact (Yields.error _).later _
            | exact yields_scalarOutcome _ _

end Node

theorem isDocument_of_read {text : List Char} {v : Value} (hread : read text = .ok v) :
    v.IsDocument := by
  unfold read at hread
  split at hread
  · obtain ⟨document, -, hread⟩ := bind_eq_ok_iff.mp hread
    cases document with
    | none =>
        cases hread
        exact .atom nofun nofun nofun
    | some n =>
        change documentValue n = .ok v at hread
        unfold documentValue at hread
        split at hread
        · rename_i hbuild
          cases hread
          exact n.yields_build _ _ _ hbuild
        · cases hread
        · split at hread
          · cases hread
          · cases hread
            exact .list nofun
  · cases hread

end Yaml

/-! ## Descriptions -/

namespace Description

open Host

variable {w : World} {timeout : Binary64} {source : String} {s : SourceText} {v : Value}

theorem isDocument_of_readYaml {refused : SourceError} {text : List Char}
    (hread : readYaml refused text = .ok v) : v.IsDocument := by
  unfold readYaml at hread
  split at hread
  · cases hread
    exact Yaml.isDocument_of_read ‹_›
  all_goals cases hread

theorem isDocument_of_valueOf {format : Option Format} {origin : String} {text : List Char}
    (hread : valueOf format origin text = .ok v) : v.IsDocument := by
  have hjson : ∀ {w}, Json.read text = .ok w → w.IsDocument :=
    fun hw => (Json.readInvariant_isPlain.of_read hw).isDocument
  unfold valueOf at hread
  split at hread
  · exact isDocument_of_readYaml hread
  · split at hread
    · cases hread
      exact hjson ‹_›
    all_goals cases hread
  · split at hread
    · cases hread
      exact hjson ‹_›
    · exact isDocument_of_readYaml hread
    · cases hread

/-- Whatever a source holds is a document. -/
theorem isDocument_of_load (hload : (load w timeout source).outcome = .ok v) : v.IsDocument := by
  rw [outcome_load] at hload
  obtain ⟨s, -, hread⟩ := bind_eq_ok_iff.mp hload
  unfold ofSourceText at hread
  split at hread
  · cases hread
  · obtain ⟨found, hfound, hread⟩ := bind_eq_ok_iff.mp hread
    split at hread
    · cases hread
      exact isDocument_of_valueOf hfound
    · cases hread

/-- Expanding the references of a document leaves one. -/
theorem isDocument_of_inline {root result : Value} (hinlined : (inline root).outcome = .ok result)
    (hroot : root.IsDocument) : result.IsDocument := by
  obtain ⟨-, rfl⟩ := outcome_inline_eq_ok_iff.mp hinlined
  rw [Reference.expand_eq_expandUnder]
  exact Reference.isDocument_expandUnder hroot (.refl root) hroot

theorem isDocument_of_loadInline (hload : (loadInline w timeout source).outcome = .ok v) :
    v.IsDocument := by
  simp only [loadInline, Traced.outcome_bind, Traced.outcome_lift, bind_eq_ok_iff] at hload
  obtain ⟨read, hread, -, -, hinlined⟩ := hload
  exact isDocument_of_inline hinlined (isDocument_of_load hread)

end Description

end ApiContract
