import ApiContract.Proofs.Reference.PlainPointer
import ApiContract.Proofs.Reference.Unfolding
import ApiContract.Proofs.Schema.Unambiguous
import ApiContract.Proofs.Schema.WellShaped
import ApiContract.Proofs.Text.Numeral

/-!
# The text of a location is a pointer

A location is written as a pointer: each step behind a slash, with the slashes and tildes of a key
escaped.  So no step contains a slash as it is written, and a reader that cuts the text at its
slashes and takes the escapes back finds the steps again.  In a value whose keys are texts, none of
them declared twice, the pointer leads to the node at the location, and two paths of one value that
are written alike are the same path.

A position is read back only while its numeral has few enough digits; that is what
`Step.IsReadable` says.
-/

namespace ApiContract.Reference

variable {root node : Value} {path : List Step} {edge : Step}

/-! ## Steps as they are written -/

/-- What a step of a pointer stands for once its escapes are read. -/
def Step.segment : Step → List Char
  | .key k => k.shown.toList
  | .index i => (toString i).toList

/-- Whether the numeral of a position has few enough digits to be read. -/
def Step.IsReadable : Step → Prop
  | .key _ => True
  | .index i => i < 10 ^ Text.digitLimit

theorem slash_not_mem_escape (s : List Char) : '/' ∉ escape s := by
  fun_induction escape s with
  | case1 => simp
  | case2 rest ih => simp [ih]
  | case3 rest ih => simp [ih]
  | case4 c rest _ hslash ih => simpa [ih] using fun heq => hslash heq.symm

theorem not_mem_toString {i : Nat} {c : Char} (hc : c.isDigit = false) :
    c ∉ (toString i).toList := by
  intro hmem
  rw [Text.toList_toString] at hmem
  simp [Text.isDigit_of_mem_toDigits hmem] at hc

theorem Step.slash_not_mem_text (edge : Step) : '/' ∉ edge.text := by
  cases edge with
  | key k => exact slash_not_mem_escape _
  | index i => exact not_mem_toString rfl

theorem unescape_of_not_mem {s : List Char} (hplain : '~' ∉ s) : unescape s = s := by
  induction s with
  | nil => rfl
  | cons c rest ih =>
      rw [List.mem_cons, not_or] at hplain
      rw [unescape, ih hplain.2]
      · rintro tail rfl
        exact absurd rfl hplain.1
      · rintro tail rfl
        exact absurd rfl hplain.1

theorem Step.unescape_text (edge : Step) : unescape edge.text = edge.segment := by
  cases edge with
  | key k => exact unescape_escape _
  | index i => exact unescape_of_not_mem (not_mem_toString rfl)

/-! ## Cutting at the slashes -/

theorem segments_of_not_mem {part : List Char} (hpart : '/' ∉ part) : segments part = [part] := by
  induction part with
  | nil => rfl
  | cons c rest ih =>
      rw [List.mem_cons, not_or] at hpart
      rw [segments, if_neg (Ne.symm hpart.1), ih hpart.2]

theorem segments_append {part : List Char} (hpart : '/' ∉ part) (rest : List Char) :
    segments (part ++ '/' :: rest) = part :: segments rest := by
  induction part with
  | nil => rfl
  | cons c others ih =>
      rw [List.mem_cons, not_or] at hpart
      rw [List.cons_append, segments, if_neg (Ne.symm hpart.1), ih hpart.2]

theorem pathText_cons (edge : Step) (path : List Step) :
    pathText (edge :: path) = '/' :: (edge.text ++ pathText path) := rfl

theorem pathText_append (before after : List Step) :
    pathText (before ++ after) = pathText before ++ pathText after :=
  List.flatMap_append

theorem segments_pathText (edge : Step) (path : List Step) :
    segments (edge.text ++ pathText path) = (edge :: path).map Step.text := by
  induction path generalizing edge with
  | nil => simpa [pathText] using segments_of_not_mem edge.slash_not_mem_text
  | cons next rest ih => rw [pathText_cons, segments_append edge.slash_not_mem_text, ih]; rfl

/-- The text of a location is read as the steps that lead there. -/
theorem parse?_text (hne : path ≠ []) :
    parse? (.str (Location.text path.reverse)) = some (path.map Step.segment) := by
  obtain ⟨edge, rest, rfl⟩ := List.exists_cons_of_ne_nil hne
  rw [parse?, Location.text, List.reverse_reverse, String.toList_ofList, pathText_cons]
  simp only [segments_pathText, List.map_map, Function.comp_def, Step.unescape_text]

/-- Where a written path goes on, its first step is the part before the next slash. -/
theorem takeWhile_pathText (edge : Step) (path : List Step) :
    (edge.text ++ pathText path).takeWhile (· ≠ '/') = edge.text := by
  have hedge : ∀ c ∈ edge.text, (decide (c ≠ '/')) = true := by
    intro c hc
    exact decide_eq_true fun heq => edge.slash_not_mem_text (heq ▸ hc)
  have hpath : (pathText path).takeWhile (· ≠ '/') = [] := by
    cases path <;> simp [pathText]
  rw [List.takeWhile_append_of_pos hedge, hpath, List.append_nil]

/-- Two written paths are alike only if their first steps are and what follows is. -/
theorem pathText_cons_inj {other : Step} {others : List Step}
    (htext : pathText (edge :: path) = pathText (other :: others)) :
    edge.text = other.text ∧ pathText path = pathText others := by
  rw [pathText_cons, pathText_cons, List.cons_inj_right] at htext
  have hfirst : edge.text = other.text := by
    rw [← takeWhile_pathText edge path, htext, takeWhile_pathText]
  rw [hfirst] at htext
  exact ⟨hfirst, List.append_cancel_left htext⟩

theorem Location.text_append (later place : Location) :
    Location.text (later ++ place) =
      String.ofList ('#' :: (pathText place.reverse ++ pathText later.reverse)) := by
  rw [Location.text, List.reverse_append, pathText_append]

theorem Location.text_append_inj (left right place : Location)
    (htext : Location.text (left ++ place) = Location.text (right ++ place)) :
    pathText left.reverse = pathText right.reverse := by
  rw [text_append, text_append] at htext
  exact List.append_cancel_left (List.cons_inj_right _ |>.mp (String.ofList_injective htext))

/-! ## Following the pointer -/

/-- All keys of all mappings are texts, and no mapping declares a key twice. -/
structure IsAddressable (node : Value) : Prop where
  textKeys : node.hasTextKeys = true
  unambiguous : node.isUnambiguous = true

theorem IsAddressable.part {part : Value} (hnode : IsAddressable node) (hpart : Part node edge part) :
    IsAddressable part := by
  cases hpart with
  | item hitem =>
      have hmem := List.mem_of_getElem? hitem
      exact ⟨Value.hasTextKeys_list_iff.mp hnode.textKeys _ hmem,
        Value.isUnambiguous_list_iff.mp hnode.unambiguous _ hmem⟩
  | entry hentry =>
      exact ⟨(Value.hasTextKeys_map_iff.mp hnode.textKeys _ hentry).2,
        (Value.isUnambiguous_map_iff.mp hnode.unambiguous).2 _ hentry⟩

theorem IsAddressable.nodup_keys {entries : Entries} (hnode : IsAddressable (.map entries)) :
    (Entries.keys entries).Nodup := by
  apply (Value.isUnambiguous_map_iff.mp hnode.unambiguous).1.imp_of_mem
  intro key other hkey _ hdiffer heq
  obtain ⟨entry, hentry, rfl⟩ := List.mem_map.mp hkey
  obtain ⟨⟨name, hname⟩, -⟩ := Value.hasTextKeys_map_iff.mp hnode.textKeys _ hentry
  rw [← heq, hname] at hdiffer
  simp at hdiffer

theorem IsAddressable.target {ref target : Value} (hroot : IsAddressable root)
    (hresolve : resolve root ref = .ok target) : IsAddressable target :=
  resolve_inherits (fun _ _ _ hnode hpart => hnode.part hpart) hroot hresolve

theorem position?_of_lt {length i : Nat} (hi : i < length) :
    Value.position? length i = some i := by
  simp [Value.position?, hi]

/-- A step as it is written leads to the part that it was written for. -/
theorem IsAddressable.step_segment {part : Value} (hnode : IsAddressable node)
    (hpart : Part node edge part) (hreadable : edge.IsReadable) :
    step node edge.segment = .ok part := by
  cases hpart with
  | item hitem =>
      obtain ⟨hi, -⟩ := List.getElem?_eq_some_iff.mp hitem
      simp only [step, Step.segment, Text.wholeNumber?_toString hreadable, Option.bind_some,
        position?_of_lt hi, hitem]
  | entry hentry =>
      obtain ⟨⟨name, rfl⟩, -⟩ := Value.hasTextKeys_map_iff.mp hnode.textKeys _ hentry
      apply step_map_eq_ok_iff.mpr
      rw [Step.segment, Value.shown, String.ofList_toList]
      exact (Value.isUnambiguous_map_iff.mp hnode.unambiguous).1.field?_of_mem hentry

theorem IsAddressable.follow_segments {last : Value} (hnode : IsAddressable node)
    (hat : At node path last) (hreadable : ∀ edge ∈ path, edge.IsReadable) :
    follow node (path.map Step.segment) = .ok last := by
  induction hat with
  | here => rfl
  | step hpart _ ih =>
      obtain ⟨hfirst, hrest⟩ := List.forall_mem_cons.mp hreadable
      exact follow_cons_eq_ok_iff.mpr
        ⟨_, hnode.step_segment hpart hfirst, ih (hnode.part hpart) hrest⟩

/-- The text of a location, taken as a reference, leads to the node at that location. -/
theorem IsAddressable.resolve_text {last : Value} (hroot : IsAddressable root)
    (hat : At root path last) (hreadable : ∀ edge ∈ path, edge.IsReadable) (hne : path ≠ []) :
    resolve root (.str (Location.text path.reverse)) = .ok last := by
  rw [resolve, parse?_text hne]
  exact hroot.follow_segments hat hreadable

/-! ## Paths that are written alike -/

/-- Two steps from one node that are written alike are the same step, and lead to the same part. -/
theorem IsAddressable.part_unique {other : Step} {left right : Value} (hnode : IsAddressable node)
    (hleft : Part node edge left) (hright : Part node other right)
    (htext : edge.text = other.text) : edge = other ∧ left = right := by
  cases hleft with
  | item hitem =>
      cases hright with
      | item hother =>
          obtain rfl := Text.toString_injective (String.toList_injective htext)
          exact ⟨rfl, Option.some.inj (hitem.symm.trans hother)⟩
  | entry hentry =>
      cases hright with
      | entry hother =>
          obtain ⟨⟨name, rfl⟩, -⟩ := Value.hasTextKeys_map_iff.mp hnode.textKeys _ hentry
          obtain ⟨⟨name', rfl⟩, -⟩ := Value.hasTextKeys_map_iff.mp hnode.textKeys _ hother
          have hnames : name.toList = name'.toList := by
            have hunescaped := congrArg unescape htext
            rwa [Step.unescape_text, Step.unescape_text] at hunescaped
          obtain rfl := String.toList_injective hnames
          have hkeys := (Value.isUnambiguous_map_iff.mp hnode.unambiguous).1
          have hvalues := (hkeys.field?_of_mem hentry).symm.trans (hkeys.field?_of_mem hother)
          exact ⟨rfl, Option.some.inj hvalues⟩

end ApiContract.Reference
