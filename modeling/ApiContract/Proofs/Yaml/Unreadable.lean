import ApiContract.Proofs.Yaml.Parsing
import ApiContract.Yaml.Reader

/-!
# Why a YAML text is unreadable

A malformed text is refused as such.  Apart from that a well-formed text can be *unreadable*: a
scalar in it does not fit its tag or stands for a number that no value can hold, a mapping in it
holds itself, or the text has broken off with a number out of range.  The value of a node is put
together from the values of the nodes that it holds, so what keeps it from being built is found in
one of them.
-/

namespace ApiContract.Yaml

/-! ## The nodes that a node holds -/

/-- A node and the nodes that it is made of, however deep. -/
inductive Node.Holds : Node → Node → Prop
  | self (n : Node) : Holds n n
  | item {tag : Tag} {items : List Node} {m n : Node} (hm : m ∈ items) (hrest : Holds m n) :
      Holds (.sequence tag items) n
  | key {tag : Tag} {entries : List (Node × Node)} {entry : Node × Node} {n : Node}
      (hentry : entry ∈ entries) (hrest : Holds entry.1 n) : Holds (.mapping tag entries) n
  | value {tag : Tag} {entries : List (Node × Node)} {entry : Node × Node} {n : Node}
      (hentry : entry ∈ entries) (hrest : Holds entry.2 n) : Holds (.mapping tag entries) n

/-- A node whose text is no value of its tag: it does not fit, or it is a time that is given as the
default value of a mapping. -/
def Node.IsUnfit (n : Node) : Prop :=
  ∃ text, n.scalarText? = some text ∧
    (scalarValue n.tag text = .error .unreadable ∨
      (n.tag = .timestamp ∧ ∃ tag entries, n = .mapping tag entries))

/-- A node that is made of itself. -/
def Node.IsEndless (n : Node) : Prop := ∃ anchor isMapping, n.Holds (.loop anchor isMapping)

/-- What a node has to hold for an obstacle to be met in it. -/
def Node.Explains (n : Node) : Obstacle → Prop
  | .fault .malformed => True
  | .fault .unreadable => ∃ m, n.Holds m ∧ m.IsUnfit
  | .endless => n.IsEndless

theorem Node.Holds.trans {n m l : Node} (hfirst : n.Holds m) (hsecond : m.Holds l) : n.Holds l := by
  induction hfirst with
  | self => exact hsecond
  | item hm _ ih => exact .item hm (ih hsecond)
  | key hentry _ ih => exact .key hentry (ih hsecond)
  | value hentry _ ih => exact .value hentry (ih hsecond)

theorem Node.Explains.of_holds {n m : Node} {o : Obstacle} (hm : m.Explains o) (hheld : n.Holds m) :
    n.Explains o := by
  cases o with
  | endless =>
      obtain ⟨anchor, isMapping, hloop⟩ := hm
      exact ⟨anchor, isMapping, hheld.trans hloop⟩
  | fault f =>
      cases f with
      | malformed => trivial
      | unreadable =>
          obtain ⟨l, hl, hunfit⟩ := hm
          exact ⟨l, hheld.trans hl, hunfit⟩

/-! ## Obstacles of a whole come from its parts -/

/-- All obstacles that an outcome can meet have a property. -/
def Outcome.Meets {α : Type} (P : Obstacle → Prop) (x : Outcome α) : Prop :=
  ∀ rounds o, x = .error (rounds, o) → P o

namespace Outcome

variable {α β γ : Type} {P : Obstacle → Prop}

theorem Meets.ok (a : α) : Meets P (.ok a : Outcome α) := by
  intro rounds o h
  cases h

theorem Meets.error {rounds : Nat} {o : Obstacle} (ho : P o) :
    Meets P (.error (rounds, o) : Outcome α) := by
  intro _ _ h
  cases h
  exact ho

theorem Meets.mono {Q : Obstacle → Prop} {x : Outcome α} (hx : Meets P x)
    (himp : ∀ o, P o → Q o) : Meets Q x :=
  fun rounds o h => himp o (hx rounds o h)

theorem Meets.map {x : Outcome α} (f : α → β) (hx : Meets P x) : Meets P (x.map f) := by
  cases x with
  | ok a => exact .ok _
  | error e => exact .error (hx _ _ rfl)

theorem Meets.later {x : Outcome α} (rounds : Nat) (hx : Meets P x) :
    Meets P (x.later rounds) := by
  cases x with
  | ok a => exact .ok _
  | error e => exact .error (hx _ _ rfl)

theorem Meets.both {f : α → β → γ} {x : Outcome α} {y : Outcome β} (hx : Meets P x)
    (hy : Meets P y) : Meets P (both f x y) := by
  cases x with
  | ok a =>
      cases y with
      | ok b => exact .ok _
      | error e => exact .error (hy _ _ rfl)
  | error e =>
      cases y with
      | ok b => exact .error (hx _ _ rfl)
      | error e' =>
          rw [Outcome.both]
          split
          · exact .error (hy _ _ rfl)
          · exact .error (hx _ _ rfl)

theorem Meets.all {outcomes : List (Outcome α)} (houtcomes : ∀ x ∈ outcomes, Meets P x) :
    Meets P (all outcomes) := by
  induction outcomes with
  | nil => exact .ok _
  | cons x rest ih =>
      obtain ⟨hx, hrest⟩ := List.forall_mem_cons.mp houtcomes
      exact hx.both (ih hrest)

end Outcome

namespace Node

open Outcome (Meets)

/-! ## Merged entries -/

/-- An entry that a node brings into a mapping: its value is one of the nodes that are held, and so
is its key, unless the key is read as a text. -/
def Brings (n : Node) (entry : Node × Node) : Prop :=
  (n.Holds entry.1 ∨ entry.1.tag = .str) ∧ n.Holds entry.2

theorem Brings.of_holds {n m : Node} {entry : Node × Node} (hm : m.Brings entry)
    (hheld : n.Holds m) : n.Brings entry :=
  ⟨hm.1.imp_left hheld.trans, hheld.trans hm.2⟩

theorem brings_ownEntries {tag : Tag} {entries : List (Node × Node)} {entry : Node × Node}
    (hentry : entry ∈ ownEntries entries) : (Node.mapping tag entries).Brings entry := by
  obtain ⟨⟨k, v⟩, hmem, rfl⟩ := List.mem_map.mp hentry
  have hheld := (List.mem_filter.mp hmem).1
  refine ⟨?_, .value hheld (.self _)⟩
  dsimp only
  split
  · rename_i hvalue
    right
    cases k with
    | loop anchor isMapping => cases isMapping <;> simp [Node.tag] at hvalue
    | _ => rfl
  · exact .inl (.key hheld (.self _))

mutual

theorem brings_of_mergedEntries? {entries merged : List (Node × Node)}
    (hmerged : mergedEntries? entries = some merged) {entry : Node × Node} (hentry : entry ∈ merged) :
    ∃ source ∈ entries, source.2.Brings entry := by
  match entries with
  | [] =>
      cases hmerged
      cases hentry
  | (k, v) :: rest =>
      rw [mergedEntries?] at hmerged
      split at hmerged
      · obtain ⟨first, hfirst, hmerged⟩ := Option.bind_eq_some_iff.mp hmerged
        obtain ⟨others, hothers, hmerged⟩ := Option.bind_eq_some_iff.mp hmerged
        cases hmerged
        rcases List.mem_append.mp hentry with hentry | hentry
        · exact ⟨_, List.mem_cons_self, brings_of_mergeSource? hfirst hentry⟩
        · obtain ⟨source, hsource, hbrings⟩ := brings_of_mergedEntries? hothers hentry
          exact ⟨source, List.mem_cons_of_mem _ hsource, hbrings⟩
      · obtain ⟨source, hsource, hbrings⟩ := brings_of_mergedEntries? hmerged hentry
        exact ⟨source, List.mem_cons_of_mem _ hsource, hbrings⟩

theorem brings_of_mergeSource? {n : Node} {merged : List (Node × Node)}
    (hmerged : mergeSource? n = some merged) {entry : Node × Node} (hentry : entry ∈ merged) :
    n.Brings entry := by
  match n with
  | .mapping _ entries =>
      rw [mergeSource?] at hmerged
      obtain ⟨inner, hinner, hmerged⟩ := Option.bind_eq_some_iff.mp hmerged
      cases hmerged
      rcases List.mem_append.mp hentry with hentry | hentry
      · obtain ⟨source, hsource, hbrings⟩ := brings_of_mergedEntries? hinner hentry
        exact hbrings.of_holds (.value hsource (.self _))
      · exact brings_ownEntries hentry
  | .sequence _ items =>
      rw [mergeSource?] at hmerged
      obtain ⟨source, hsource, hbrings⟩ := brings_of_mergeSources? hmerged hentry
      exact hbrings.of_holds (.item hsource (.self _))
  | .loop anchor true =>
      cases hmerged
      rw [List.mem_singleton] at hentry
      exact hentry ▸ ⟨.inr rfl, .self _⟩
  | .loop _ false => cases hmerged
  | .scalar _ _ => cases hmerged

theorem brings_of_mergeSources? {items : List Node} {merged : List (Node × Node)}
    (hmerged : mergeSources? items = some merged) {entry : Node × Node} (hentry : entry ∈ merged) :
    ∃ source ∈ items, source.Brings entry := by
  match items with
  | [] =>
      cases hmerged
      cases hentry
  | .mapping _ entries :: rest =>
      rw [mergeSources?] at hmerged
      obtain ⟨inner, hinner, hmerged⟩ := Option.bind_eq_some_iff.mp hmerged
      obtain ⟨others, hothers, hmerged⟩ := Option.bind_eq_some_iff.mp hmerged
      cases hmerged
      rcases List.mem_append.mp hentry with hentry | hentry
      · obtain ⟨source, hsource, hbrings⟩ := brings_of_mergeSources? hothers hentry
        exact ⟨source, List.mem_cons_of_mem _ hsource, hbrings⟩
      · refine ⟨_, List.mem_cons_self, ?_⟩
        rcases List.mem_append.mp hentry with hentry | hentry
        · obtain ⟨source, hsource, hbrings⟩ := brings_of_mergedEntries? hinner hentry
          exact hbrings.of_holds (.value hsource (.self _))
        · exact brings_ownEntries hentry
  | .loop anchor true :: rest =>
      rw [mergeSources?] at hmerged
      obtain ⟨others, hothers, hmerged⟩ := Option.bind_eq_some_iff.mp hmerged
      cases hmerged
      rcases List.mem_append.mp hentry with hentry | hentry
      · obtain ⟨source, hsource, hbrings⟩ := brings_of_mergeSources? hothers hentry
        exact ⟨source, List.mem_cons_of_mem _ hsource, hbrings⟩
      · rw [List.mem_singleton] at hentry
        exact ⟨_, List.mem_cons_self, hentry ▸ ⟨.inr rfl, .self _⟩⟩
  | .loop _ false :: _ => cases hmerged
  | .sequence _ _ :: _ => cases hmerged
  | .scalar _ _ :: _ => cases hmerged

end

/-! ## Building a node -/

theorem meets_scalarOutcome {n : Node} {tag : Tag} (htag : n.tag = tag) :
    Meets n.Explains (scalarOutcome tag n) := by
  unfold scalarOutcome
  split
  · exact .error trivial
  · rename_i text htext
    split
    · rename_i inner entries
      exact .error ⟨_, .self _, text, htext, .inr ⟨htag, inner, entries, rfl⟩⟩
    · cases hvalue : scalarValue tag text with
      | ok v => exact .ok v
      | error f =>
          cases f with
          | malformed => exact .error trivial
          | unreadable => exact .error ⟨n, .self n, text, htext, .inl (htag ▸ hvalue)⟩

/-- A node that is read as a text is malformed, if anything. -/
theorem meets_scalarOutcome_str (n : Node) :
    Meets (· = .fault .malformed) (scalarOutcome .str n) := by
  unfold scalarOutcome
  split
  · exact .error rfl
  · exact .ok _

theorem meets_build_of_str {n : Node} (htag : n.tag = .str) (budget : Nat) (atOnce : Bool) :
    Meets (· = .fault .malformed) (n.build budget atOnce) := by
  cases n with
  | loop anchor isMapping => cases isMapping <;> simp [Node.tag] at htag
  | _ =>
      obtain rfl : _ = Tag.str := htag
      cases budget <;> (unfold build; exact meets_scalarOutcome_str _)

theorem meets_keyOutcome {P : Obstacle → Prop} {x : Outcome Value} (hx : Meets P x)
    (hmalformed : P (.fault .malformed)) : Meets P (keyOutcome x) := by
  unfold keyOutcome
  split
  · split
    · exact .ok _
    · exact .error hmalformed
  · exact .error hmalformed
  · exact hx

/-- A mapping is put together from the entries that it declares and those that are merged in. -/
theorem meets_mapping {tag : Tag} {entries : List (Node × Node)} {P : Obstacle → Prop}
    {key value : Node → Outcome Value} (hmalformed : P (.fault .malformed))
    (hentries : ∀ entry, (Node.mapping tag entries).Brings entry →
      Meets P (key entry.1) ∧ Meets P (value entry.2)) :
    Meets P (match mergedEntries? entries with
      | none => .malformed
      | some merged => entriesValue ((merged ++ ownEntries entries).map fun e =>
          (key e.1, value e.2))) := by
  split
  · exact .error hmalformed
  · rename_i merged hmerged
    apply Meets.map
    apply Meets.all
    intro x hx
    rw [List.map_map] at hx
    obtain ⟨entry, hentry, rfl⟩ := List.mem_map.mp hx
    have hbrings : (Node.mapping tag entries).Brings entry := by
      rcases List.mem_append.mp hentry with hmem | hmem
      · obtain ⟨source, hsource, hbrings⟩ := brings_of_mergedEntries? hmerged hmem
        exact hbrings.of_holds (.value hsource (.self _))
      · exact brings_ownEntries hmem
    obtain ⟨hkey, hvalue⟩ := hentries entry hbrings
    exact (meets_keyOutcome hkey hmalformed).both hvalue

/-- Pairs are mappings of one entry each. -/
theorem meets_pairs {items : List Node} {P : Obstacle → Prop} {part : Node → Outcome Value}
    (hmalformed : P (.fault .malformed))
    (hitems : ∀ item ∈ items, ∀ m, item.Holds m → Meets P (part m)) :
    Meets P (Outcome.all (items.map fun
      | .mapping _ [(k, v)] => Outcome.both Value.pair (part k) (part v)
      | _ => .malformed)) := by
  apply Meets.all
  intro x hx
  obtain ⟨item, hitem, rfl⟩ := List.mem_map.mp hx
  split
  · exact (hitems _ hitem _ (.key List.mem_cons_self (.self _))).both
      (hitems _ hitem _ (.value List.mem_cons_self (.self _)))
  · exact .error hmalformed

/-- What keeps a node from being a value is found in the nodes that it holds. -/
theorem meets_build (budget : Nat) (atOnce : Bool) (n : Node) :
    Meets n.Explains (n.build budget atOnce) := by
  induction budget generalizing atOnce n with
  | zero =>
      cases n with
      | loop anchor isMapping => exact .error ⟨anchor, isMapping, .self _⟩
      | scalar tag _ | sequence tag _ | mapping tag _ =>
          unfold build
          cases tag
          all_goals
            first
            | exact Meets.later _ (.error trivial)
            | exact meets_scalarOutcome rfl
  | succ budget ih =>
      have hheld : ∀ m atOnce, n.Holds m → Meets n.Explains (m.build budget atOnce) :=
        fun m atOnce hm => (ih atOnce m).mono fun _ ho => ho.of_holds hm
      have hbrought : ∀ entry : Node × Node, n.Brings entry →
          Meets n.Explains (entry.1.build budget true) ∧
            Meets n.Explains (entry.2.build budget atOnce) := by
        intro entry hentry
        refine ⟨?_, hheld _ _ hentry.2⟩
        rcases hentry.1 with hkey | hkey
        · exact hheld _ _ hkey
        · exact (meets_build_of_str hkey budget true).mono fun o ho => ho ▸ trivial
      cases n with
      | loop anchor isMapping => exact .error ⟨anchor, isMapping, .self _⟩
      | scalar tag text =>
          unfold build
          cases tag
          all_goals
            first
            | exact Meets.later _ (.error trivial)
            | exact meets_scalarOutcome rfl
      | sequence tag items =>
          have hitems : ∀ item ∈ items, ∀ m, item.Holds m →
              Meets (Node.sequence tag items).Explains (m.build budget atOnce) :=
            fun item hitem m hm => hheld m atOnce (.item hitem hm)
          have hlist : Meets (Node.sequence tag items).Explains
              (Outcome.all (items.map (build budget atOnce))) := by
            apply Meets.all
            intro x hx
            obtain ⟨item, hitem, rfl⟩ := List.mem_map.mp hx
            exact hitems item hitem item (.self _)
          unfold build
          cases tag
          all_goals
            first
            | exact (hlist.map _).later _
            | exact ((meets_pairs trivial hitems).map _).later _
            | exact Meets.later _ (.error trivial)
            | exact meets_scalarOutcome rfl
      | mapping tag entries =>
          unfold build
          cases tag
          all_goals
            first
            | exact ((meets_mapping trivial hbrought).map _).later _
            | exact Meets.later _ (.error trivial)
            | exact meets_scalarOutcome rfl

end Node

/-! ## Reading a text -/

/-- Why a text without a flaw in its form is refused: it has broken off with a number out of range,
its document holds a node whose text is no value of its tag, or the document is a mapping that is
made of itself. -/
inductive IsUnreadable (text : List Char) : Prop
  | brokenOff (hfault : .fault .unreadable ∈ tokens text)
  | unfit {n m : Node} (hdocument : Node.ofTokens? (tokens text) = .ok (some n)) (hheld : n.Holds m)
      (hunfit : m.IsUnfit)
  | endless {n : Node} (hdocument : Node.ofTokens? (tokens text) = .ok (some n))
      (hmap : n.tag = .map) (hendless : n.IsEndless)

theorem isUnreadable_of_read {text : List Char} (hread : read text = .error .unreadable) :
    IsUnreadable text := by
  unfold read at hread
  split at hread
  · cases hdocument : Node.ofTokens? (tokens text) with
    | error f =>
        rw [hdocument] at hread
        cases hread
        rcases mem_tokens_of_ofTokens? hdocument with hmalformed | hfault
        · cases hmalformed
        · exact .brokenOff hfault
    | ok document =>
        rw [hdocument] at hread
        cases document with
        | none => cases hread
        | some n =>
            have hmeets := n.meets_build (n.depth + 1) false
            change documentValue n = .error .unreadable at hread
            unfold documentValue at hread
            split at hread
            · cases hread
            · rename_i rounds f hbuild
              cases hread
              obtain ⟨m, hheld, hunfit⟩ := hmeets _ _ hbuild
              exact .unfit hdocument hheld hunfit
            · rename_i rounds hbuild
              split at hread
              · rename_i hmap
                exact .endless hdocument hmap (hmeets _ _ hbuild)
              · cases hread
  · cases hread

end ApiContract.Yaml
