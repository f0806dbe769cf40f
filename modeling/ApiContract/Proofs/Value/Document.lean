import ApiContract.Proofs.Reference.Recursion
import ApiContract.Proofs.Schema.WellShaped
import ApiContract.Proofs.Value.Key

/-!
# Documents

A value as a reader gives it: each of its mappings is a table.  Parts of documents are documents,
and so is what a document becomes when its references are expanded, because an expanded mapping
keeps its keys.
-/

namespace ApiContract

/-- A value all of whose mappings are tables. -/
inductive Value.IsDocument : Value → Prop
  | list {items : List Value} (hitems : ∀ item ∈ items, IsDocument item) : IsDocument (.list items)
  | map {entries : Entries} (htable : entries.IsTable)
      (hvalues : ∀ entry ∈ entries, IsDocument entry.2) : IsDocument (.map entries)
  | pair {first second : Value} (hfirst : IsDocument first) (hsecond : IsDocument second) :
      IsDocument (.pair first second)
  | atom {v : Value} (hlist : ∀ items, v ≠ .list items) (hmap : ∀ entries, v ≠ .map entries)
      (hpair : ∀ first second, v ≠ .pair first second) : IsDocument v

namespace Value

theorem isDocument_set (members : List Value) : (Value.set members).IsDocument :=
  .atom nofun nofun nofun

theorem isDocument_list_iff {items : List Value} :
    (Value.list items).IsDocument ↔ ∀ item ∈ items, item.IsDocument := by
  constructor
  · intro hdocument
    cases hdocument with
    | list hitems => exact hitems
    | atom hlist => exact absurd rfl (hlist items)
  · exact .list

theorem isDocument_map_iff {entries : Entries} :
    (Value.map entries).IsDocument ↔
      entries.IsTable ∧ ∀ entry ∈ entries, entry.2.IsDocument := by
  constructor
  · intro hdocument
    cases hdocument with
    | map htable hvalues => exact ⟨htable, hvalues⟩
    | atom _ hmap => exact absurd rfl (hmap entries)
  · exact fun ⟨htable, hvalues⟩ => .map htable hvalues

theorem isDocument_pair_iff {first second : Value} :
    (Value.pair first second).IsDocument ↔ first.IsDocument ∧ second.IsDocument := by
  constructor
  · intro hdocument
    cases hdocument with
    | pair hfirst hsecond => exact ⟨hfirst, hsecond⟩
    | atom _ _ hpair => exact absurd rfl (hpair first second)
  · exact fun ⟨hfirst, hsecond⟩ => .pair hfirst hsecond

/-- A value is a document if all its keys are texts and no mapping declares one twice. -/
theorem isDocument_of_isUnambiguous {v : Value} (htext : v.hasTextKeys = true)
    (hkeys : v.isUnambiguous = true) : v.IsDocument := by
  cases v with
  | list items =>
      refine .list fun item hitem => ?_
      have hlt := List.sizeOf_lt_of_mem hitem
      exact isDocument_of_isUnambiguous (hasTextKeys_list_iff.mp htext item hitem)
        (isUnambiguous_list_iff.mp hkeys item hitem)
  | map entries =>
      obtain ⟨hdiffer, hvalues⟩ := isUnambiguous_map_iff.mp hkeys
      refine .map ⟨fun entry hentry => ?_, hdiffer⟩ fun entry hentry => ?_
      · obtain ⟨⟨name, hname⟩, -⟩ := hasTextKeys_map_iff.mp htext entry hentry
        rw [hname]
        rfl
      · have hlt := Reference.sizeOf_lt_of_part (.entry hentry)
        exact isDocument_of_isUnambiguous (hasTextKeys_map_iff.mp htext entry hentry).2
          (hvalues entry hentry)
  | pair first second =>
      rw [hasTextKeys, Bool.and_eq_true] at htext
      rw [isUnambiguous, Bool.and_eq_true] at hkeys
      exact .pair (isDocument_of_isUnambiguous htext.1 hkeys.1)
        (isDocument_of_isUnambiguous htext.2 hkeys.2)
  | _ => exact .atom (by simp) (by simp) (by simp)
termination_by sizeOf v

end Value

namespace Schema

theorem isDocument_inherited : Inherited Value.IsDocument where
  null := .atom nofun nofun nofun
  item hlist hx := Value.isDocument_list_iff.mp hlist _ hx
  member hmap hentry := (Value.isDocument_map_iff.mp hmap).2 _ hentry
  first hpair := (Value.isDocument_pair_iff.mp hpair).1
  second hpair := (Value.isDocument_pair_iff.mp hpair).2

end Schema

namespace Reference

variable {root node part : Value} {active : List String} {place : Location}

theorem isDocument_of_part {edge : Step} (hnode : node.IsDocument) (hpart : Part node edge part) :
    part.IsDocument := by
  cases hpart with
  | item hitem => exact Value.isDocument_list_iff.mp hnode part (List.mem_of_getElem? hitem)
  | entry hentry => exact (Value.isDocument_map_iff.mp hnode).2 _ hentry

/-- A value of the shape of a document is a document if its parts are. -/
theorem isDocument_of_shape {other : Value} (hother : other.IsDocument)
    (hshape : node.shape = other.shape)
    (hparts : ∀ edge part, Part node edge part → part.IsDocument) : node.IsDocument := by
  cases alike_of_shape hshape with
  | list items =>
      refine .list fun item hitem => ?_
      obtain ⟨i, hi⟩ := List.mem_iff_getElem?.mp hitem
      exact hparts _ _ (.item hi)
  | map hkeys =>
      refine .map ?_ fun entry hentry => hparts _ _ (.entry hentry)
      exact (Value.isDocument_map_iff.mp hother).1.of_keys hkeys
  | scalar => exact hother

theorem isDocument_expandUnder (hroot : root.IsDocument) (hinside : Inside root node)
    (hnode : node.IsDocument) : (expandUnder root active place node).node.IsDocument :=
  expandUnder_inherits (fun _ _ _ => isDocument_of_part) (fun _ _ => isDocument_of_shape) hroot
    hinside hnode

end Reference

end ApiContract
