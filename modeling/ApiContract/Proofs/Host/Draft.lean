import ApiContract.Host.Draft
import ApiContract.Proofs.Host.Files
import Mathlib.Data.List.Nodup
import Mathlib.Data.List.Perm.Subperm

/-!
# A draft leaves no trace

A draft stands where nothing stood, and no path to another file leads through it.  So to write a
draft and to move it is the same as to write the file at once: `replaceFile_eq_write`.  In
particular no draft is left, whether the file is replaced or not.
-/

namespace ApiContract.Host

namespace FileSystem

variable {fs : FileSystem} {draft here place : Place} {entry other : Entry} {octets : List UInt8}

/-! ## Free names -/

theorem draftName_injective (name : String) : Function.Injective (draftName name) := by
  intro m n heq
  have htexts : toString m = toString n := by
    simpa [draftName, String.append_assoc] using heq
  have hdigits : Nat.toDigits 10 m = Nat.toDigits 10 n := by
    simpa [Nat.toList_repr] using congrArg String.toList htexts
  rw [← Nat.ofDigitChars_ten_toDigits (n := m), hdigits, Nat.ofDigitChars_ten_toDigits]

theorem draftName_ne (name : String) (n : Nat) : draftName name n ≠ name := by
  intro heq
  have hlength := congrArg String.length heq
  simp only [draftName, String.length_append] at hlength
  have hdot : ".".length = 1 := rfl
  omega

theorem mem_places_of_lookup? (hne : place ≠ []) (hentry : fs.lookup? place = some entry) :
    place ∈ fs.entries.map (·.1) := by
  rw [lookup?_of_ne_nil hne] at hentry
  obtain ⟨e, hfound, -⟩ := Option.map_eq_some_iff.mp hentry
  have hat : e.1 = place := by simpa using List.find?_some hfound
  exact List.mem_map.mpr ⟨e, List.mem_of_find?_eq_some hfound, hat⟩

/-- Among one name more than there are entries one is free. -/
theorem exists_draftPlace? (fs : FileSystem) (directory : Place) (name : String) :
    ∃ n, fs.draftPlace? directory name = some (directory ++ [draftName name n]) ∧
      fs.lookup? (directory ++ [draftName name n]) = none := by
  cases hfound : fs.draftPlace? directory name with
  | some draft =>
      have hmem := List.mem_of_find?_eq_some hfound
      have hfree := List.find?_some hfound
      obtain ⟨n, -, rfl⟩ := List.mem_map.mp hmem
      exact ⟨n, rfl, by simpa using hfree⟩
  | none =>
      exfalso
      rw [draftPlace?, List.find?_eq_none] at hfound
      let drafts := (List.range (fs.entries.length + 1)).map fun n => directory ++ [draftName name n]
      have hdiffer : drafts.Nodup := by
        refine List.nodup_range.map fun m n heq => draftName_injective name ?_
        simpa using heq
      have htaken : drafts ⊆ fs.entries.map (·.1) := by
        intro draft hdraft
        obtain ⟨entry, hentry⟩ := Option.isSome_iff_exists.mp
          (by simpa [Option.isSome_iff_ne_none] using hfound draft hdraft)
        refine mem_places_of_lookup? ?_ hentry
        obtain ⟨n, -, rfl⟩ := List.mem_map.mp hdraft
        simp
      have hlength := (hdiffer.subperm htaken).length_le
      simp only [drafts, List.length_map, List.length_range] at hlength
      omega

/-! ## Entries at a free place -/

/-- Putting and removing at different places commute. -/
theorem remove_put_of_ne (hne : place ≠ draft) :
    (fs.put place entry).remove draft = (fs.remove draft).put place entry := by
  have hkeeps : ∀ e : Place × Entry, (e.1 != draft && e.1 == place) = (e.1 == place) := by
    intro e
    by_cases heq : e.1 = place <;> simp [heq, hne]
  have hstays : ((fun e : Place × Entry => e.1 != draft) ∘
      fun e => if e.1 == place then (place, entry) else e) = fun e => e.1 != draft := by
    funext e
    by_cases heq : e.1 = place <;> simp [heq]
  simp only [put, remove, List.any_filter, hkeeps]
  split
  · simp only [List.filter_map, hstays]
  · simp [hne]

theorem ne_of_lookup?_eq_none (hne : draft ≠ []) (hfree : fs.lookup? draft = none) :
    ∀ e ∈ fs.entries, (e.1 == draft) = false := by
  rw [lookup?_of_ne_nil hne, Option.map_eq_none_iff, List.find?_eq_none] at hfree
  exact fun e he => by simpa using hfree e he

section Free

variable (hfree : ∀ e ∈ fs.entries, (e.1 == draft) = false)

include hfree

/-- What is put at a free place is the last entry. -/
theorem put_of_free : fs.put draft entry = ⟨fs.entries ++ [(draft, entry)]⟩ := by
  rw [put, List.any_eq_false.mpr fun e he => by rw [hfree e he]; exact Bool.false_ne_true]
  rfl

theorem put_put_of_free : (fs.put draft entry).put draft other = fs.put draft other := by
  have hkept : fs.entries.map (fun e => if e.1 == draft then (draft, other) else e) = fs.entries :=
    List.map_congr_left (g := id) (fun e he => by rw [hfree e he]; rfl) |>.trans (List.map_id _)
  rw [put_of_free hfree, put_of_free hfree, put, if_pos (by simp), List.map_append, hkept]
  simp

theorem remove_put_of_free : (fs.put draft entry).remove draft = fs := by
  have hkept : fs.entries.filter (fun e => e.1 != draft) = fs.entries :=
    List.filter_eq_self.mpr fun e he => by rw [bne, hfree e he]; rfl
  rw [put_of_free hfree, remove, List.filter_append, hkept]
  simp

end Free

/-! ## Paths past a draft -/

/-- A path that does not end at a draft leads where it leads without it. -/
theorem follow_put_draft (hfree : fs.lookup? draft = none) (steps : List String)
    (hpast : fs.follow here steps ≠ .vacant draft) :
    (fs.put draft (.file octets)).follow here steps = fs.follow here steps := by
  have hput : (fs.put draft (.file octets)).lookup? draft = some (.file octets) := by
    refine lookup?_put_self ?_
    rintro rfl
    cases hfree
  induction steps generalizing here with
  | nil => rfl
  | cons step rest ih =>
      by_cases hup : (step == "..") = true
      · rw [follow_up hup] at hpast ⊢
        rw [follow_up hup]
        exact ih hpast
      · rw [follow_down hup] at hpast
        rw [follow_down hup, follow_down hup]
        by_cases hnext : here ++ [step] = draft
        · -- A way that goes on behind the draft leads nowhere, with the draft and without it.
          rw [hnext, hfree] at hpast
          rw [hnext, hput, hfree]
          cases rest with
          | nil => exact absurd rfl hpast
          | cons => rfl
        · rw [lookup?_put_of_ne hnext]
          cases hentry : fs.lookup? (here ++ [step]) with
          | none => rfl
          | some entry =>
              cases entry with
              | file octets => rfl
              | directory =>
                  rw [hentry] at hpast
                  exact ih hpast

/-- The last step of a path to a file is the name of the file. -/
theorem exists_directory_of_filePlace? {steps : List String}
    (hplace : (fs.follow here steps).filePlace? = some place) :
    ∃ directory : Place, place = directory ++ [steps.getLastD ""] := by
  induction steps generalizing here with
  | nil => cases hplace
  | cons step rest ih =>
      have hmore {before : Place} (hrest : (fs.follow before rest).filePlace? = some place) :
          ∃ directory : Place, place = directory ++ [(step :: rest).getLastD ""] := by
        cases rest with
        | nil => cases hrest
        | cons => exact ih hrest
      by_cases hup : (step == "..") = true
      · rw [follow_up hup] at hplace
        exact hmore hplace
      · rw [follow_down hup] at hplace
        split at hplace
        · exact hmore hplace
        -- A file and a free place are targets only at the end of the path.
        all_goals
          split at hplace
          case isTrue hlast =>
            cases hplace
            rw [List.isEmpty_iff.mp hlast]
            exact ⟨here, rfl⟩
          case isFalse => cases hplace

/-- No path leads to a file of its own draft. -/
theorem filePlace?_ne_draft (fs : FileSystem) (cwd directory : Place) (p : Path) (n : Nat) :
    (fs.target cwd p).filePlace? ≠ some (directory ++ [draftName p.name n]) := by
  intro hplace
  obtain ⟨before, heq⟩ := exists_directory_of_filePlace? hplace
  exact draftName_ne p.name n (List.append_inj_right' heq rfl |> List.singleton_inj.mp)

end FileSystem

namespace World

open FileSystem

variable {w ready : World} {p : Path} {text : String} {draft : Place}

/-- What becomes of a draft that stands where nothing stood. -/
theorem finishDraft_eq (hfree : ready.files.lookup? draft = none)
    (hpast : (ready.files.target ready.cwd p).filePlace? ≠ some draft) :
    finishDraft { ready with files := ready.files.put draft (.file []) } draft p text =
      match (encode? text).bind (ready.files.replace? ready.cwd p) with
      | some files => ({ ready with files }, true)
      | none => (ready, false) := by
  have hne : draft ≠ [] := by
    rintro rfl
    cases hfree
  have hdiffer := ne_of_lookup?_eq_none hne hfree
  cases hoctets : encode? text with
  | none =>
      simp only [finishDraft, fillDraft?, hoctets, Option.map_none, discardDraft,
        remove_put_of_free hdiffer, Option.bind_none]
  | some octets =>
      have htarget : (ready.files.put draft (.file octets)).target ready.cwd p =
          ready.files.target ready.cwd p := by
        refine follow_put_draft hfree _ fun hvacant => hpast ?_
        rw [target, hvacant]
        rfl
      simp only [finishDraft, fillDraft?, hoctets, Option.map_some, Option.bind_some,
        put_put_of_free hdiffer, moveDraft?, move?, lookup?_put_self hne, replace?_eq, htarget]
      cases hplace : (ready.files.target ready.cwd p).filePlace? with
      | none => simp only [Option.map_none, discardDraft, remove_put_of_free hdiffer]
      | some place =>
          have hplaces : place ≠ draft := fun heq => hpast (heq ▸ hplace)
          simp only [Option.map_some, remove_put_of_ne hplaces, remove_put_of_free hdiffer]

/-- To replace a file by way of a draft is to write it at once. -/
theorem replaceFile_eq_write (w : World) (p : Path) (text : String) :
    w.replaceFile p text = w.write p text := by
  unfold replaceFile write
  cases hmade : w.makeDirectory? p.parent with
  | none => rfl
  | some ready =>
      obtain ⟨files, hfiles, rfl⟩ := Option.map_eq_some_iff.mp hmade
      obtain ⟨n, hdraft, hfree⟩ := exists_draftPlace? files (w.placeOf p.parent) p.name
      have hdirectory : files.target w.cwd p.parent = .found (w.placeOf p.parent) .directory :=
        follow_makeAlong hfiles
      simp only [createDraft?, hdirectory, hdraft, Option.map_some]
      have hready : ({ w with files } : World).files.lookup?
          (w.placeOf p.parent ++ [draftName p.name n]) = none := hfree
      exact finishDraft_eq hready (filePlace?_ne_draft files w.cwd (w.placeOf p.parent) p n)

end World

end ApiContract.Host
