import ApiContract.Yaml.Node
import Mathlib.Data.List.Infix

/-!
# What the node tree is refused for

A node is put together from the tokens that are left, and what is left afterwards is an end of
them.  So the tree of a document is refused for one of two reasons: the tokens do not fit together,
which is malformed, or one of them is the fault that the text has broken off with.
-/

namespace ApiContract.Yaml

variable {α β : Type} {r next : Reading}

/-- What comes of reading tokens: a good result, a malformed text, or a fault among the tokens. -/
inductive Heeds (r : Reading) (good : α → Prop) : Except Fault α → Prop
  | ok {a : α} (hgood : good a) : Heeds r good (.ok a)
  | malformed : Heeds r good (.error .malformed)
  | fault {f : Fault} (hfault : .fault f ∈ r.tokens) : Heeds r good (.error f)

/-- The tokens that are left are an end of those that were left before. -/
def Advances (r : Reading) (result : α × Reading) : Prop := result.2.tokens <:+ r.tokens

section Laws

variable {good : α → Prop} {better : β → Prop} {x : Except Fault α}

theorem Heeds.andThen {f : α → Except Fault β} (hx : Heeds r good x)
    (hf : ∀ a, good a → Heeds r better (f a)) : Heeds r better (x >>= f) := by
  cases hx with
  | ok hgood => exact hf _ hgood
  | malformed => exact .malformed
  | fault hfault => exact .fault hfault

theorem Heeds.from_suffix {x : Except Fault (α × Reading)} (hx : Heeds next (Advances next) x)
    (hnext : next.tokens <:+ r.tokens) : Heeds r (Advances r) x := by
  cases hx with
  | ok hgood => exact .ok (hgood.trans hnext)
  | malformed => exact .malformed
  | fault hfault => exact .fault (hnext.subset hfault)

theorem Heeds.weaken {good : α → Prop} {x : Except Fault α} (hx : Heeds next good x)
    (hnext : next.tokens <:+ r.tokens) : Heeds r good x := by
  cases hx with
  | ok hgood => exact .ok hgood
  | malformed => exact .malformed
  | fault hfault => exact .fault (hnext.subset hfault)

end Laws

namespace Reading

theorem drop_suffix (r : Reading) : r.drop.tokens <:+ r.tokens := List.tail_suffix r.tokens

@[simp] theorem tokens_register (r : Reading) (anchor : Option (List Char)) (what : Anchored) :
    (r.register anchor what).tokens = r.tokens := by
  cases anchor <;> rfl

theorem heeds_peek (r : Reading) : Heeds r (fun _ => True) r.peek := by
  unfold peek
  split
  · exact .malformed
  · rename_i f rest htokens
    exact .fault (htokens ▸ List.mem_cons_self)
  · exact .ok trivial

theorem heeds_typingOf (handles : Handles) (handle : Option (List Char)) (suffix : List Char) :
    Heeds r (fun _ => True) (typingOf handles handle suffix) := by
  unfold typingOf
  split
  · exact .ok trivial
  · split
    · exact .ok trivial
    · exact .malformed

theorem heeds_properties (handles : Handles) (r : Reading) :
    Heeds r (Advances r) (r.properties handles) := by
  have htwo := r.drop.drop_suffix.trans r.drop_suffix
  unfold properties
  apply r.heeds_peek.andThen
  intro first _
  split
  · apply (r.drop.heeds_peek.weaken r.drop_suffix).andThen
    intro second _
    split
    · exact (heeds_typingOf _ _ _).andThen fun _ _ => .ok htwo
    · exact .ok r.drop_suffix
  · apply (r.drop.heeds_peek.weaken r.drop_suffix).andThen
    intro second _
    split
    · exact (heeds_typingOf _ _ _).andThen fun _ _ => .ok htwo
    · exact (heeds_typingOf _ _ _).andThen fun _ _ => .ok r.drop_suffix
  · exact .ok (List.suffix_refl _)

theorem heeds_aliased (r : Reading) (name : List Char) :
    Heeds r (fun _ => True) (r.aliased name) := by
  unfold aliased
  split
  · exact .malformed
  · exact .ok trivial
  · exact .ok trivial

theorem heeds_checkAnchor (r : Reading) (anchor : Option (List Char)) :
    Heeds r (fun _ => True) (r.checkAnchor anchor) := by
  unfold checkAnchor
  split
  · exact .ok trivial
  · split
    · exact .malformed
    · exact .ok trivial

end Reading

/-- What all readers of nodes do with a budget. -/
structure ReadersHeed (handles : Handles) (budget : Nat) : Prop where
  node : ∀ context r, Heeds r (Advances r) (readNode handles budget context r)
  content : ∀ context found token r,
    Heeds r (Advances r) (readContent handles budget context found token r)
  optional : ∀ context ends r, Heeds r (Advances r) (readOptional handles budget context ends r)
  blockItems : ∀ r, Heeds r (Advances r) (readBlockItems handles budget r)
  plainEntries : ∀ r, Heeds r (Advances r) (readPlainEntries handles budget r)
  blockEntries : ∀ r, Heeds r (Advances r) (readBlockEntries handles budget r)
  valueIf : ∀ context ends r, Heeds r (Advances r) (readValueIf handles budget context ends r)
  flowItems : ∀ atStart r, Heeds r (Advances r) (readFlowItems handles budget atStart r)
  flowEntries : ∀ atStart r, Heeds r (Advances r) (readFlowEntries handles budget atStart r)

/-- A part and the parts behind it. -/
theorem Heeds.cons {one more : Type} {first : Except Fault (one × Reading)}
    {others : Reading → Except Fault (more × Reading)} (combine : one → more → β)
    (hfirst : Heeds r (Advances r) first) (hothers : ∀ s, Heeds s (Advances s) (others s)) :
    Heeds r (Advances r) (first >>= fun a => others a.2 >>= fun b => .ok (combine a.1 b.1, b.2)) :=
  hfirst.andThen fun _ hs =>
    ((hothers _).from_suffix hs).andThen fun _ hstop => .ok hstop

/-- A collection that is put together from its parts; its anchor names it from then on. -/
theorem heeds_collection {parts : Type} {entries : Reading → Except Fault (parts × Reading)}
    (wrap : parts → Node) (anchor : Option (List Char)) (isMapping : Bool) (r : Reading)
    (hentries : ∀ s, Heeds s (Advances s) (entries s)) :
    Heeds r (Advances r) (entries (r.register anchor (.unfinished isMapping)) >>= fun a =>
      .ok (wrap a.1, a.2.register anchor (.node (wrap a.1)))) := by
  apply ((hentries _).from_suffix (by rw [Reading.tokens_register])).andThen
  intro result hresult
  exact .ok (by simpa [Advances] using hresult)

/-- Behind a separator, or at the start where there is none. -/
theorem Reading.afterSeparator_suffix (r : Reading) (atStart : Bool) :
    (if atStart then r else r.drop).tokens <:+ r.tokens := by
  split
  · exact List.suffix_refl _
  · exact r.drop_suffix

namespace ReadersHeed

variable {handles : Handles} {budget : Nat} (h : ReadersHeed handles budget)

include h

theorem readNode_succ (context : Context) (r : Reading) :
    Heeds r (Advances r) (readNode handles (budget + 1) context r) := by
  rw [readNode]
  apply r.heeds_peek.andThen
  intro first _
  split
  · exact (r.heeds_aliased _).andThen fun _ _ => .ok r.drop_suffix
  · apply (r.heeds_properties handles).andThen
    rintro ⟨found, s⟩ hs
    apply (s.heeds_peek.weaken hs).andThen
    intro token _
    apply ((s.heeds_checkAnchor _).weaken hs).andThen
    intro _ _
    exact (h.content _ _ _ _).from_suffix hs

theorem readContent_succ (context : Context) (found : Properties) (token : Token) (r : Reading) :
    Heeds r (Advances r) (readContent handles (budget + 1) context found token r) := by
  let pairsNode (pairs : List (Node × Node)) : Node :=
    .mapping (found.typing.collection .map) (pairs.filter (!isSelfMerge found.anchor ·))
  have hscalar : ∀ n : Node,
      Heeds r (Advances r) (.ok (n, r.register found.anchor (.node n))) :=
    fun n => .ok (by simp [Advances])
  have hdropped : ∀ n : Node,
      Heeds r (Advances r) (.ok (n, r.drop.register found.anchor (.node n))) :=
    fun n => .ok (by simpa [Advances] using r.drop_suffix)
  have hoptional : ∀ n : Node, Heeds r (Advances r)
      (if found.anchor.isSome || found.typing ≠ .untyped then
        .ok (n, r.register found.anchor (.node n)) else malformed) := by
    intro n
    split
    · exact hscalar n
    · exact .malformed
  unfold readContent
  dsimp only
  split
  · exact hdropped _
  · exact heeds_collection _ _ _ r fun s => (h.flowItems _ _).from_suffix s.drop_suffix
  · exact heeds_collection pairsNode _ _ r fun s => (h.flowEntries _ _).from_suffix s.drop_suffix
  · split
    · exact heeds_collection _ _ _ r h.plainEntries
    · exact hoptional _
  · split
    · exact heeds_collection _ _ _ r fun s => (h.blockItems _).from_suffix s.drop_suffix
    · exact hoptional _
  · split
    · exact heeds_collection pairsNode _ _ r fun s => (h.blockEntries _).from_suffix s.drop_suffix
    · exact hoptional _
  · exact hoptional _

theorem readOptional_succ (context : Context) (ends : List Token) (r : Reading) :
    Heeds r (Advances r) (readOptional handles (budget + 1) context ends r) := by
  rw [readOptional]
  apply r.heeds_peek.andThen
  intro next _
  split
  · exact .ok (List.suffix_refl _)
  · exact h.node _ _

theorem readBlockItems_succ (r : Reading) :
    Heeds r (Advances r) (readBlockItems handles (budget + 1) r) := by
  rw [readBlockItems]
  apply r.heeds_peek.andThen
  intro next _
  split
  · exact .cons List.cons ((h.optional _ _ _).from_suffix r.drop_suffix) h.blockItems
  · exact .ok r.drop_suffix
  · exact .malformed

theorem readPlainEntries_succ (r : Reading) :
    Heeds r (Advances r) (readPlainEntries handles (budget + 1) r) := by
  rw [readPlainEntries]
  apply r.heeds_peek.andThen
  intro next _
  split
  · exact .cons List.cons ((h.optional _ _ _).from_suffix r.drop_suffix) h.plainEntries
  · exact .ok (List.suffix_refl _)

theorem readBlockEntries_succ (r : Reading) :
    Heeds r (Advances r) (readBlockEntries handles (budget + 1) r) := by
  rw [readBlockEntries]
  apply r.heeds_peek.andThen
  intro next _
  split
  · apply ((h.optional _ _ _).from_suffix r.drop_suffix).andThen
    rintro ⟨k, s⟩ hs
    dsimp only
    exact (Heeds.cons (fun v others => (k, v) :: others) (h.valueIf _ _ s)
      h.blockEntries).from_suffix hs
  · exact .ok r.drop_suffix
  · exact .malformed

theorem readValueIf_succ (context : Context) (ends : List Token) (r : Reading) :
    Heeds r (Advances r) (readValueIf handles (budget + 1) context ends r) := by
  rw [readValueIf]
  apply r.heeds_peek.andThen
  intro next _
  split
  · exact (h.optional _ _ _).from_suffix r.drop_suffix
  · exact .ok (List.suffix_refl _)

theorem readFlowItems_succ (atStart : Bool) (r : Reading) :
    Heeds r (Advances r) (readFlowItems handles (budget + 1) atStart r) := by
  rw [readFlowItems]
  apply r.heeds_peek.andThen
  intro next _
  split
  · exact .ok r.drop_suffix
  · split
    · exact .malformed
    · have hstart := r.afterSeparator_suffix atStart
      generalize (if atStart then r else r.drop) = s at hstart
      apply (s.heeds_peek.weaken hstart).andThen
      intro first _
      split
      · exact .ok (s.drop_suffix.trans hstart)
      · apply ((h.optional _ _ _).from_suffix (s.drop_suffix.trans hstart)).andThen
        rintro ⟨k, t⟩ ht
        dsimp only
        exact (Heeds.cons (fun v others => .mapping .map [(k, v)] :: others) (h.valueIf _ _ t)
          fun _ => h.flowItems _ _).from_suffix ht
      · exact (Heeds.cons List.cons (h.node _ s) fun _ => h.flowItems _ _).from_suffix hstart

theorem readFlowEntries_succ (atStart : Bool) (r : Reading) :
    Heeds r (Advances r) (readFlowEntries handles (budget + 1) atStart r) := by
  rw [readFlowEntries]
  apply r.heeds_peek.andThen
  intro next _
  split
  · exact .ok r.drop_suffix
  · split
    · exact .malformed
    · have hstart := r.afterSeparator_suffix atStart
      generalize (if atStart then r else r.drop) = s at hstart
      apply (s.heeds_peek.weaken hstart).andThen
      intro first _
      split
      · exact .ok (s.drop_suffix.trans hstart)
      · apply ((h.optional _ _ _).from_suffix (s.drop_suffix.trans hstart)).andThen
        rintro ⟨k, t⟩ ht
        dsimp only
        exact (Heeds.cons (fun v others => (k, v) :: others) (h.valueIf _ _ t)
          fun _ => h.flowEntries _ _).from_suffix ht
      · exact (Heeds.cons (fun k others => (k, .empty) :: others) (h.node _ s)
          fun _ => h.flowEntries _ _).from_suffix hstart

end ReadersHeed

/-- The readers of nodes, together along their budget. -/
theorem readersHeed (handles : Handles) (budget : Nat) : ReadersHeed handles budget := by
  induction budget with
  | zero =>
      exact ⟨fun _ _ => .malformed, fun _ _ _ _ => .malformed, fun _ _ _ => .malformed,
        fun _ => .malformed, fun _ => .malformed, fun _ => .malformed, fun _ _ _ => .malformed,
        fun _ _ => .malformed, fun _ _ => .malformed⟩
  | succ budget h =>
      exact ⟨h.readNode_succ, h.readContent_succ, h.readOptional_succ, h.readBlockItems_succ,
        h.readPlainEntries_succ, h.readBlockEntries_succ, h.readValueIf_succ, h.readFlowItems_succ,
        h.readFlowEntries_succ⟩

/-! ## Documents -/

theorem heeds_readDirectives (budget : Nat) (sawVersion : Bool) (handles : Handles) (r : Reading) :
    Heeds r (Advances r) (readDirectives budget sawVersion handles r) := by
  induction budget generalizing sawVersion handles r with
  | zero => exact .malformed
  | succ budget ih =>
      rw [readDirectives]
      apply r.heeds_peek.andThen
      intro next _
      split
      · split
        · exact .malformed
        · exact (ih _ _ _).from_suffix r.drop_suffix
      · split
        · exact .malformed
        · exact (ih _ _ _).from_suffix r.drop_suffix
      · exact (ih _ _ _).from_suffix r.drop_suffix
      · exact .ok (List.suffix_refl _)

theorem heeds_readEnd (budget : Nat) (r : Reading) :
    Heeds r (fun _ => True) (readEnd budget r) := by
  induction budget generalizing r with
  | zero => exact .malformed
  | succ budget ih =>
      rw [readEnd]
      apply r.heeds_peek.andThen
      intro next _
      split
      · exact (ih _).weaken r.drop_suffix
      · exact .ok trivial
      · exact (heeds_readDirectives _ _ _ r).andThen fun _ _ => .malformed

/-- A node and what may follow it. -/
theorem heeds_readLast (handles : Handles) (budget : Nat) (r : Reading) :
    Heeds r (fun _ => True) (readNode handles budget .block r >>= fun a =>
      readEnd budget a.2 >>= fun _ => .ok (some a.1)) := by
  apply ((readersHeed handles budget).node _ r).andThen
  intro a ha
  exact ((heeds_readEnd _ a.2).weaken ha).andThen fun _ _ => .ok trivial

theorem heeds_ofTokens? (tokens : List Token) :
    Heeds ⟨tokens, []⟩ (fun _ => True) (Node.ofTokens? tokens) := by
  unfold Node.ofTokens?
  apply (Reading.heeds_peek _).andThen
  intro first _
  split
  · exact .ok trivial
  -- A node is the document itself; a directive or a marker stands in front of it.
  all_goals
    first
    | exact heeds_readLast _ _ _
    | apply (heeds_readDirectives _ _ _ _).andThen
      rintro ⟨handles, s⟩ hs
      apply (s.heeds_peek.weaken hs).andThen
      intro next _
      split
      · have hdrop := s.drop_suffix.trans hs
        apply (s.drop.heeds_peek.weaken hdrop).andThen
        intro start _
        split
        all_goals
          first
          | exact ((heeds_readEnd _ _).weaken hdrop).andThen fun _ _ => .ok trivial
          | exact (heeds_readLast _ _ _).weaken hdrop
      · exact .malformed

/-- The tree of a list of tokens is refused as malformed, or for a fault among the tokens. -/
theorem mem_tokens_of_ofTokens? {tokens : List Token} {f : Fault}
    (hfails : Node.ofTokens? tokens = .error f) : f = .malformed ∨ .fault f ∈ tokens := by
  have hheeds := heeds_ofTokens? tokens
  generalize Node.ofTokens? tokens = found at hfails hheeds
  cases hheeds with
  | ok => cases hfails
  | malformed =>
      cases hfails
      exact .inl rfl
  | fault hfault =>
      cases hfails
      exact .inr hfault

end ApiContract.Yaml
