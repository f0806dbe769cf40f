import ApiContract.Proofs.Reference.Locations

/-!
# Locations are pointers

The escapes of a pointer are two replacements throughout a text, one after the other: tildes before
slashes when a key is written, and the other way round when it is read.  Both orders come to one pass
over the text.  So the text of the location of a node, taken as a reference, leads to that node and
to no other, whatever the keys on the way are.
-/

namespace ApiContract.Reference

/-! ## Replacement throughout a text -/

/-- A text with all occurrences of a part replaced, from the left, and without looking at what has
been put in. -/
def replaceAll (part new : List Char) : List Char → List Char
  | [] => []
  | c :: rest =>
      if part.isPrefixOf (c :: rest) then new ++ replaceAll part new (rest.drop (part.length - 1))
      else c :: replaceAll part new rest
termination_by text => text.length
decreasing_by
  · rw [List.length_drop, List.length_cons]
    omega
  · rw [List.length_cons]
    omega

section ReplaceAll

variable {part new : List Char} {c first second : Char} {rest : List Char}

theorem replaceAll_nil : replaceAll part new [] = [] := by
  rw [replaceAll]

theorem replaceAll_cons_of_not_isPrefixOf (hother : part.isPrefixOf (c :: rest) = false) :
    replaceAll part new (c :: rest) = c :: replaceAll part new rest := by
  rw [replaceAll, if_neg (by simp [hother])]

theorem isPrefixOf_cons_of_ne {others : List Char} (hc : first ≠ c) :
    (first :: others).isPrefixOf (c :: rest) = false := by
  rw [List.isPrefixOf_cons_cons, beq_eq_false_iff_ne.mpr hc, Bool.false_and]

theorem replaceAll_singleton (c : Char) (new text : List Char) :
    replaceAll [c] new text = text.flatMap fun d => if d = c then new else [d] := by
  induction text with
  | nil => exact replaceAll_nil
  | cons d rest ih =>
      rw [List.flatMap_cons]
      by_cases hd : d = c
      · rw [replaceAll, if_pos (by simp [hd]), if_pos hd]
        exact congrArg (new ++ ·) ih
      · have hother : [c].isPrefixOf (d :: rest) = false :=
          isPrefixOf_cons_of_ne (Ne.symm hd)
        rw [replaceAll_cons_of_not_isPrefixOf hother, if_neg hd, ih]
        rfl

theorem replaceAll_pair (rest : List Char) :
    replaceAll [first, second] new (first :: second :: rest) =
      new ++ replaceAll [first, second] new rest := by
  rw [replaceAll, if_pos (by simp)]
  rfl

/-- Two characters that are replaced start with the first of them. -/
theorem replaceAll_pair_of_ne (hc : c ≠ first) :
    replaceAll [first, second] new (c :: rest) = c :: replaceAll [first, second] new rest :=
  replaceAll_cons_of_not_isPrefixOf (isPrefixOf_cons_of_ne (Ne.symm hc))

end ReplaceAll

/-! ## Escapes as replacements -/

theorem escape_eq_flatMap (text : List Char) :
    escape text = text.flatMap fun c =>
      if c = '~' then ['~', '0'] else if c = '/' then ['~', '1'] else [c] := by
  fun_induction escape text with
  | case1 => rfl
  | case2 rest ih => rw [ih]; rfl
  | case3 rest ih => rw [ih]; rfl
  | case4 c rest htilde hslash ih =>
      rw [List.flatMap_cons, if_neg (fun h => htilde h), if_neg (fun h => hslash h), ih]
      rfl

/-- A key is written with its tildes replaced first, and then its slashes. -/
theorem escape_eq_replaceAll (text : List Char) :
    escape text = replaceAll ['/'] ['~', '1'] (replaceAll ['~'] ['~', '0'] text) := by
  rw [replaceAll_singleton, replaceAll_singleton, List.flatMap_assoc, escape_eq_flatMap]
  refine congrArg (text.flatMap ·) (funext fun c => ?_)
  by_cases htilde : c = '~'
  · rw [if_pos htilde, if_pos htilde]
    rfl
  · rw [if_neg htilde, if_neg htilde, List.flatMap_singleton]

theorem isPrefixOf_pair_of_ne {first second : Char} {text : List Char}
    (hother : ∀ tail, text ≠ second :: tail) :
    [first, second].isPrefixOf (first :: text) = false := by
  rw [List.isPrefixOf_cons_cons, beq_self_eq_true, Bool.true_and]
  cases text with
  | nil => rfl
  | cons c rest => exact isPrefixOf_cons_of_ne fun heq => hother rest (heq ▸ rfl)

theorem replaceAll_ne_zero_cons {text : List Char} (hother : ∀ tail, text ≠ '0' :: tail)
    (tail : List Char) : replaceAll ['~', '1'] ['/'] text ≠ '0' :: tail := by
  cases text with
  | nil =>
      rw [replaceAll_nil]
      exact nofun
  | cons c rest =>
      rw [replaceAll]
      split
      · exact fun heq => absurd (List.cons.inj heq).1 (by decide)
      · exact fun heq => hother rest (by rw [(List.cons.inj heq).1])

/-- A segment is read with the escapes of slashes replaced first, and then those of tildes.  What the
first replacement leaves behind a tilde starts with a zero only if the segment does. -/
theorem unescape_eq_replaceAll (segment : List Char) :
    unescape segment = replaceAll ['~', '0'] ['~'] (replaceAll ['~', '1'] ['/'] segment) := by
  fun_induction unescape segment with
  | case1 => rw [replaceAll_nil, replaceAll_nil]
  | case2 rest ih =>
      rw [replaceAll_pair, List.singleton_append, replaceAll_pair_of_ne (by decide), ih]
  | case3 rest ih =>
      have hother : ['~', '1'].isPrefixOf ('~' :: '0' :: rest) = false := rfl
      have hzero : '0' ≠ '~' := by decide
      rw [replaceAll_cons_of_not_isPrefixOf hother, replaceAll_pair_of_ne hzero, replaceAll_pair, ih]
      rfl
  | case4 c rest hslash htilde ih =>
      by_cases hc : c = '~'
      · subst hc
        have hone : ['~', '1'].isPrefixOf ('~' :: rest) = false :=
          isPrefixOf_pair_of_ne fun tail heq => hslash tail rfl heq
        have hzero : ['~', '0'].isPrefixOf ('~' :: replaceAll ['~', '1'] ['/'] rest) = false :=
          isPrefixOf_pair_of_ne (replaceAll_ne_zero_cons fun tail heq => htilde tail rfl heq)
        rw [replaceAll_cons_of_not_isPrefixOf hone, replaceAll_cons_of_not_isPrefixOf hzero, ih]
      · rw [replaceAll_pair_of_ne hc, replaceAll_pair_of_ne hc, ih]

/-! ## Paths and their texts -/

/-- A step as it is written: a key with its tildes and slashes replaced, or a position in decimal. -/
def Step.written : Step → List Char
  | .key k => replaceAll ['/'] ['~', '1'] (replaceAll ['~'] ['~', '0'] k.shown.toList)
  | .index i => (toString i).toList

/-- The pointer along a path: a number sign, and each step as it is written behind a slash. -/
def pointerText (path : List Step) : String :=
  String.ofList ('#' :: path.flatMap fun edge => '/' :: edge.written)

variable {root node a b : Value} {left right : List Step}

theorem Step.text_eq_written (edge : Step) : edge.text = edge.written := by
  cases edge with
  | key k => exact escape_eq_replaceAll _
  | index i => rfl

theorem text_eq_pointerText (path : List Step) : Location.text path.reverse = pointerText path := by
  have hsteps : Step.text = Step.written := funext Step.text_eq_written
  rw [Location.text, List.reverse_reverse, pathText, pointerText, hsteps]

/-- Two paths in one value that are written alike are the same path. -/
theorem IsAddressable.path_unique (hnode : IsAddressable node) (hleft : At node left a)
    (hright : At node right b) (htext : pathText left = pathText right) : left = right := by
  induction hleft generalizing right with
  | here node =>
      cases hright with
      | here => rfl
      | step hpart hrest => cases htext
  | step hpart hrest ih =>
      cases hright with
      | here => cases htext
      | step hother hothers =>
          obtain ⟨hfirst, hlater⟩ := pathText_cons_inj htext
          obtain ⟨rfl, rfl⟩ := hnode.part_unique hpart hother hfirst
          rw [ih (hnode.part hpart) hothers hlater]

/-- The text of a location is written and read by replacing the escapes.  In a value whose keys are
texts, the text of the location of a node that is not the root leads to that node and no other, and
different paths have different texts.  Positions are written and read up to the number of digits that
a numeral may have. -/
theorem locations_are_pointers (root : Value) (hroot : IsAddressable root) :
    (∀ path, Location.text path.reverse = pointerText path) ∧
    (∀ segment, unescape segment =
      replaceAll ['~', '0'] ['~'] (replaceAll ['~', '1'] ['/'] segment)) ∧
    (∀ path node, At root path node → path ≠ [] → (∀ edge ∈ path, edge.IsReadable) →
      resolve root (.str (pointerText path)) = .ok node) ∧
    ∀ left right a b, At root left a → At root right b →
      pointerText left = pointerText right → left = right := by
  refine ⟨text_eq_pointerText, unescape_eq_replaceAll, ?_, ?_⟩
  · intro path node hat hne hreadable
    rw [← text_eq_pointerText]
    exact hroot.resolve_text hat hreadable hne
  · intro left right a b hleft hright htext
    rw [← text_eq_pointerText, ← text_eq_pointerText] at htext
    have hpaths : pathText left = pathText right := by
      simpa using Location.text_append_inj left.reverse right.reverse [] (by simpa using htext)
    exact hroot.path_unique hleft hright hpaths

/-- A list under a key with a slash, under an empty key, with keys that look like escapes. -/
def oddKeys : Value :=
  .map [(.str "", .map [(.str "a/b", .list [.null,
    .map [(.str "~1", .int 1), (.str "~01", .int 2), (.str "1", .int 3)]])])]

theorem oddKeys_are_found :
    IsAddressable oddKeys ∧
      At oddKeys [.key (.str ""), .key (.str "a/b"), .index 1, .key (.str "~01")] (.int 2) ∧
      At oddKeys [.key (.str ""), .key (.str "a/b"), .index 1, .key (.str "~1")] (.int 1) ∧
      resolve oddKeys (.str "#//a~1b/1/~001") = .ok (.int 2) ∧
      resolve oddKeys (.str "#//a~1b/1/~01") = .ok (.int 1) := by
  have hroot : IsAddressable oddKeys := ⟨by decide, by cbv⟩
  obtain ⟨htext, -, hfound, -⟩ := locations_are_pointers oddKeys hroot
  have hat (key : String) (n : Int)
      (hmem : (.str key, .int n) ∈ [(Value.str "~1", Value.int 1), (.str "~01", .int 2),
        (.str "1", .int 3)]) :
      At oddKeys [.key (.str ""), .key (.str "a/b"), .index 1, .key (.str key)] (.int n) :=
    .step (.entry List.mem_cons_self) (.step (.entry List.mem_cons_self) (.step (.item rfl)
      (.step (.entry hmem) (.here _))))
  have hsecond := hat "~01" 2 (by simp)
  have hfirst := hat "~1" 1 (by simp)
  have hreadable (key : String) : ∀ edge ∈ [Step.key (.str ""), .key (.str "a/b"), .index 1,
      .key (.str key)], edge.IsReadable := by
    simp only [List.forall_mem_cons]
    exact ⟨trivial, trivial, Nat.one_lt_pow (by decide) (by decide), trivial, List.forall_mem_nil _⟩
  refine ⟨hroot, hsecond, hfirst, ?_, ?_⟩
  · have hresolved := hfound _ _ hsecond (by simp) (hreadable _)
    rw [← htext] at hresolved
    exact hresolved
  · have hresolved := hfound _ _ hfirst (by simp) (hreadable _)
    rw [← htext] at hresolved
    exact hresolved

end ApiContract.Reference
