import ApiContract.Host.World
import Mathlib.Data.List.Basic

/-!
# What file operations keep

Making directories adds directories and nothing else.  Putting a file at a place touches that place
alone.  A path that leads to a file, or to a place where nothing stands, leads to the place that
its steps spell out, and leads there still once a file is put at that place.
-/

namespace ApiContract.Host

/-- The place that steps spell out from a directory. -/
def Place.along (place : Place) (steps : List String) : Place :=
  steps.foldl (fun here step => if step == ".." then here.dropLast else here ++ [step]) place

theorem Place.along_cons (here : Place) (step : String) (rest : List String) :
    here.along (step :: rest) =
      if step == ".." then Place.along here.dropLast rest else Place.along (here ++ [step]) rest := by
  rw [Place.along, List.foldl_cons]
  split <;> rfl

/-- The place of a target that can be a file: of a file, or where nothing stands. -/
def Target.filePlace? : Target → Option Place
  | .found place (.file _) => some place
  | .vacant place => some place
  | _ => none

namespace FileSystem

variable {fs made : FileSystem} {place here other : Place} {entry : Entry} {steps : List String}
  {octets : List UInt8}

/-- The content of the file at a place. -/
def fileAt (fs : FileSystem) (place : Place) : Option (List UInt8) :=
  match fs.lookup? place with
  | some (.file octets) => some octets
  | _ => none

/-! ## Entries -/

theorem lookup?_of_ne_nil (hne : place ≠ []) :
    fs.lookup? place = (fs.entries.find? (·.1 == place)).map (·.2) := by
  rw [lookup?, if_neg (by simpa using hne)]

theorem lookup?_put_self (hne : place ≠ []) : (fs.put place entry).lookup? place = some entry := by
  rw [lookup?_of_ne_nil hne, put]
  split
  case isTrue hany =>
    obtain ⟨e, he, hplace⟩ := List.any_eq_true.mp hany
    have hfound : (fs.entries.find? fun e => e.1 == place).isSome := by
      rw [List.find?_isSome]
      exact ⟨e, he, hplace⟩
    obtain ⟨found, hfound⟩ := Option.isSome_iff_exists.mp hfound
    have hat := List.find?_some hfound
    have hkept : ((fun e => e.1 == place) ∘ fun e : Place × Entry =>
        if (e.1 == place) = true then (place, entry) else e) = fun e => e.1 == place := by
      funext e
      by_cases heq : e.1 = place <;> simp [heq]
    simp only [List.find?_map, hkept, hfound, Option.map_some, hat, if_true]
  case isFalse hnone =>
    have hfind : (fs.entries.find? fun e => e.1 == place) = none := by
      rw [List.find?_eq_none]
      intro e he hplace
      exact hnone (List.any_eq_true.mpr ⟨e, he, hplace⟩)
    simp [List.find?_append, hfind]

theorem lookup?_put_of_ne (hne : other ≠ place) :
    (fs.put place entry).lookup? other = fs.lookup? other := by
  by_cases hroot : other = []
  · rw [hroot]
    rfl
  rw [lookup?_of_ne_nil hroot, lookup?_of_ne_nil hroot, put]
  split
  · have hkept : ((fun e => e.1 == other) ∘ fun e : Place × Entry =>
        if (e.1 == place) = true then (place, entry) else e) = fun e => e.1 == other := by
      funext e
      by_cases heq : e.1 = place <;> simp [heq]
    simp only [List.find?_map, hkept]
    cases hfound : fs.entries.find? fun e => e.1 == other with
    | none => rfl
    | some found =>
        have hat : found.1 = other := by simpa using List.find?_some hfound
        simp [hat, hne]
  · simp [List.find?_append, Ne.symm hne]

theorem fileAt_put_of_ne (hne : other ≠ place) :
    (fs.put place entry).fileAt other = fs.fileAt other := by
  simp only [fileAt, lookup?_put_of_ne hne]

/-! ## Making directories -/

/-- What stood at a place stands there still, and what is new is a directory. -/
def AddsDirectories (fs made : FileSystem) : Prop :=
  ∀ place, made.lookup? place = fs.lookup? place ∨
    fs.lookup? place = none ∧ made.lookup? place = some .directory

theorem AddsDirectories.refl (fs : FileSystem) : AddsDirectories fs fs := fun _ => .inl rfl

theorem AddsDirectories.trans {last : FileSystem} (hmade : AddsDirectories fs made)
    (hlast : AddsDirectories made last) : AddsDirectories fs last := by
  intro place
  rcases hlast place with hsame | ⟨hnone, hnew⟩
  · rw [hsame]
    exact hmade place
  · rcases hmade place with hbefore | ⟨-, hdirectory⟩
    · exact .inr ⟨hbefore ▸ hnone, hnew⟩
    · rw [hdirectory] at hnone
      cases hnone

theorem AddsDirectories.fileAt_eq (hmade : AddsDirectories fs made) (place : Place) :
    made.fileAt place = fs.fileAt place := by
  rcases hmade place with hsame | ⟨hnone, hnew⟩
  · simp only [fileAt, hsame]
  · simp only [fileAt, hnone, hnew]

theorem AddsDirectories.directory (hmade : AddsDirectories fs made)
    (hdirectory : fs.lookup? place = some .directory) : made.lookup? place = some .directory := by
  rcases hmade place with hsame | ⟨hnone, -⟩
  · rw [hsame, hdirectory]
  · rw [hnone] at hdirectory
    cases hdirectory

theorem addsDirectories_put (hnone : fs.lookup? place = none) :
    AddsDirectories fs (fs.put place .directory) := by
  intro other
  by_cases heq : other = place
  · subst heq
    refine .inr ⟨hnone, lookup?_put_self ?_⟩
    rintro rfl
    cases hnone
  · exact .inl (lookup?_put_of_ne heq)

theorem addsDirectories_makeAlong (hmade : fs.makeAlong here steps = some made) :
    AddsDirectories fs made := by
  induction steps generalizing fs here with
  | nil =>
      cases hmade
      exact .refl _
  | cons step rest ih =>
      rw [makeAlong] at hmade
      split at hmade
      · exact ih hmade
      · dsimp only at hmade
        split at hmade
        case h_1 => exact ih hmade
        case h_2 => cases hmade
        case h_3 hnone => exact (addsDirectories_put hnone).trans (ih hmade)

/-- Directories that were made along steps can be followed. -/
theorem follow_makeAlong (hmade : fs.makeAlong here steps = some made) :
    made.follow here steps = .found (here.along steps) .directory := by
  induction steps generalizing fs here with
  | nil => rfl
  | cons step rest ih =>
      rw [makeAlong] at hmade
      rw [follow, Place.along, List.foldl_cons]
      split at hmade
      case isTrue hup => rw [if_pos hup, if_pos hup]; exact ih hmade
      case isFalse hdown =>
        rw [if_neg hdown, if_neg hdown]
        dsimp only at hmade ⊢
        split at hmade
        case h_1 hdirectory =>
          rw [(addsDirectories_makeAlong hmade).directory hdirectory]
          exact ih hmade
        case h_2 => cases hmade
        case h_3 hnone =>
          have hput : (fs.put (here ++ [step]) .directory).lookup? (here ++ [step]) =
              some .directory := lookup?_put_self (by simp)
          rw [(addsDirectories_makeAlong hmade).directory hput]
          exact ih hmade

/-! ## Where paths lead -/

theorem follow_up {step : String} (hup : (step == "..") = true) (rest : List String) :
    fs.follow here (step :: rest) = fs.follow here.dropLast rest := by
  rw [follow, if_pos hup]

theorem follow_down {step : String} (hdown : ¬(step == "..") = true) (rest : List String) :
    fs.follow here (step :: rest) = match fs.lookup? (here ++ [step]) with
      | some .directory => fs.follow (here ++ [step]) rest
      | some (.file octets) =>
          if rest.isEmpty then .found (here ++ [step]) (.file octets) else .broken
      | none => if rest.isEmpty then .vacant (here ++ [step]) else .broken :=
  (follow.eq_2 fs here step rest).trans (if_neg hdown)

theorem replace?_eq (cwd : Place) (p : Path) :
    fs.replace? cwd p octets =
      (fs.target cwd p).filePlace?.map fun place => fs.put place (.file octets) := by
  unfold replace?
  cases fs.target cwd p with
  | found place entry => cases entry <;> rfl
  | vacant place => rfl
  | broken => rfl

/-- A path to a place that can be a file spells out that place, and no directory stands there. -/
theorem along_eq_of_filePlace? (hplace : (fs.follow here steps).filePlace? = some place) :
    here.along steps = place ∧ fs.lookup? place ≠ some .directory := by
  fun_induction FileSystem.follow with
  | case1 => cases hplace
  | case2 here step rest hup ih => rw [Place.along_cons, if_pos hup]; exact ih hplace
  | case3 here step rest hdown next hdirectory ih =>
      rw [Place.along_cons, if_neg hdown]
      exact ih hplace
  | case4 here step rest hdown next octets hfile hlast =>
      have hnext : next = place := Option.some.inj hplace
      rw [Place.along_cons, if_neg hdown, List.isEmpty_iff.mp hlast, ← hnext, hfile]
      exact ⟨rfl, by simp⟩
  | case5 => cases hplace
  | case6 here step rest hdown next hnone hlast =>
      have hnext : next = place := Option.some.inj hplace
      rw [Place.along_cons, if_neg hdown, List.isEmpty_iff.mp hlast, ← hnext, hnone]
      exact ⟨rfl, by simp⟩
  | case7 => cases hplace

/-- The path leads to a file that is put where it leads. -/
theorem follow_put (hplace : (fs.follow here steps).filePlace? = some place) :
    (fs.put place (.file octets)).follow here steps = .found place (.file octets) := by
  have hfree := (along_eq_of_filePlace? hplace).2
  have hput : (fs.put place (.file octets)).lookup? place = some (.file octets) := by
    refine lookup?_put_self ?_
    rintro rfl
    exact hfree rfl
  fun_induction fs.follow here steps with
  | case1 => cases hplace
  | case2 here step rest hup ih => rw [follow_up hup]; exact ih hplace
  | case3 here step rest hdown next hdirectory ih =>
      have hkept : (fs.put place (.file octets)).lookup? (here ++ [step]) = some .directory := by
        rw [lookup?_put_of_ne, hdirectory]
        rintro rfl
        exact hfree hdirectory
      rw [follow_down hdown, hkept]
      exact ih hplace
  | case4 here step rest hdown next old hfile hlast =>
      have hnext : here ++ [step] = place := Option.some.inj hplace
      rw [follow_down hdown, hnext, hput]
      exact if_pos hlast
  | case5 => cases hplace
  | case6 here step rest hdown next hnone hlast =>
      have hnext : here ++ [step] = place := Option.some.inj hplace
      rw [follow_down hdown, hnext, hput]
      exact if_pos hlast
  | case7 => cases hplace

/-- Steps behind those to a directory are followed from there. -/
theorem follow_append {rest : List String}
    (hplace : fs.follow here steps = .found place .directory) :
    fs.follow here (steps ++ rest) = fs.follow place rest := by
  fun_induction fs.follow here steps with
  | case1 here =>
      cases hplace
      rfl
  | case2 here step more hup ih =>
      rw [List.cons_append, follow_up hup]
      exact ih hplace
  | case3 here step more hdown next hdirectory ih =>
      rw [List.cons_append, follow_down hdown, hdirectory]
      exact ih hplace
  | case4 => simp at hplace
  | case5 => cases hplace
  | case6 => cases hplace
  | case7 => cases hplace

/-- A file lies in a directory. -/
theorem exists_directory_of_file {name : String}
    (hplace : fs.follow here (steps ++ [name]) = .found place (.file octets)) :
    ∃ directory, fs.follow here steps = .found directory .directory := by
  induction steps generalizing here with
  | nil => exact ⟨here, rfl⟩
  | cons step rest ih =>
      rw [List.cons_append] at hplace
      by_cases hup : (step == "..") = true
      · rw [follow_up hup] at hplace ⊢
        exact ih hplace
      · rw [follow_down hup] at hplace ⊢
        split at hplace
        · exact ih hplace
        · simp at hplace
        · simp at hplace

/-- Nothing is missing along steps that can be followed. -/
theorem makeAlong_of_follow (hplace : fs.follow here steps = .found place .directory) :
    fs.makeAlong here steps = some fs := by
  fun_induction fs.follow here steps with
  | case1 => rfl
  | case2 here step rest hup ih =>
      rw [makeAlong, if_pos hup]
      exact ih hplace
  | case3 here step rest hdown next hdirectory ih =>
      have hfound : fs.lookup? (here ++ [step]) = some .directory := hdirectory
      rw [makeAlong, if_neg hdown]
      dsimp only
      rw [hfound]
      exact ih hplace
  | case4 => simp at hplace
  | case5 => cases hplace
  | case6 => cases hplace
  | case7 => cases hplace

end FileSystem

namespace World

variable {w next last : World} {p : Path} {text : String}

/-- The place that a path spells out. -/
def placeOf (w : World) (p : Path) : Place :=
  Place.along (if p.isAbsolute then [] else w.cwd) p.parts

/-- A world that differs from another one by new directories at most. -/
structure Keeps (w next : World) : Prop where
  files : FileSystem.AddsDirectories w.files next.files
  rest : next = { w with files := next.files }

theorem Keeps.refl (w : World) : w.Keeps w := ⟨.refl _, rfl⟩

theorem Keeps.trans (hnext : w.Keeps next) (hlast : next.Keeps last) : w.Keeps last where
  files := hnext.files.trans hlast.files
  rest := by rw [hlast.rest, hnext.rest]

theorem Keeps.fileAt_eq (hnext : w.Keeps next) (place : Place) :
    next.files.fileAt place = w.files.fileAt place :=
  hnext.files.fileAt_eq place

theorem Keeps.placeOf_eq (hnext : w.Keeps next) (p : Path) : next.placeOf p = w.placeOf p := by
  rw [hnext.rest]
  rfl

theorem placeOf_step {name : String} (hname : (name == "..") = false) (p : Path) :
    w.placeOf (p.step name) = w.placeOf p ++ [name] := by
  rw [placeOf, Path.step, Path.isAbsolute, Place.along, List.foldl_append]
  simp only [List.foldl_cons, List.foldl_nil, hname]
  rfl

/-- A path can be followed once its directories are made. -/
theorem target_of_makeDirectory (hmade : w.makeDirectory? p = some next) :
    next.files.target next.cwd p = .found (next.placeOf p) .directory := by
  obtain ⟨files, hfiles, rfl⟩ := Option.map_eq_some_iff.mp hmade
  exact FileSystem.follow_makeAlong hfiles

theorem makeDirectory_of_target {place : Place}
    (hplace : w.files.target w.cwd p = .found place .directory) : w.makeDirectory? p = some w :=
  Option.map_eq_some_iff.mpr ⟨w.files, FileSystem.makeAlong_of_follow hplace, rfl⟩

theorem target_step {name : String} (hname : (name == "..") = false)
    (hplace : w.files.target w.cwd p = .found (w.placeOf p) .directory) :
    w.files.target w.cwd (p.step name) = match w.files.lookup? (w.placeOf (p.step name)) with
      | some entry => .found (w.placeOf (p.step name)) entry
      | none => .vacant (w.placeOf (p.step name)) := by
  rw [placeOf_step hname]
  refine (FileSystem.follow_append hplace).trans ?_
  rw [FileSystem.follow_down (by rw [hname]; decide)]
  cases w.files.lookup? (w.placeOf p ++ [name]) with
  | none => rfl
  | some entry => cases entry <;> rfl

/-- In a directory that stands, a path to a file leads to the file at its place. -/
theorem read?_step {name : String} (hname : (name == "..") = false)
    (hplace : w.files.target w.cwd p = .found (w.placeOf p) .directory) :
    w.read? (p.step name) = w.files.fileAt (w.placeOf (p.step name)) := by
  rw [read?, FileSystem.read?, target_step hname hplace, FileSystem.fileAt]
  cases w.files.lookup? (w.placeOf (p.step name)) with
  | none => rfl
  | some entry => cases entry <;> rfl

/-- The directory of a file that can be read stands. -/
theorem makeDirectory_of_read? {name : String} {octets : List UInt8}
    (hread : w.read? (p.step name) = some octets) : w.makeDirectory? p = some w := by
  unfold read? FileSystem.read? at hread
  split at hread
  case h_1 place found hplace =>
    obtain ⟨directory, hdirectory⟩ := FileSystem.exists_directory_of_file hplace
    exact makeDirectory_of_target hdirectory
  case h_2 => cases hread

theorem keeps_makeDirectory (hmade : w.makeDirectory? p = some next) : w.Keeps next := by
  obtain ⟨files, hfiles, rfl⟩ := Option.map_eq_some_iff.mp hmade
  exact ⟨FileSystem.addsDirectories_makeAlong hfiles, rfl⟩

/-- A world in which the file at a path has been replaced: the path leads to the new content, and
the files at all other places are the same. -/
structure Replaces (w next : World) (p : Path) (octets : List UInt8) : Prop where
  read : next.read? p = some octets
  files : ∀ place, place ≠ w.placeOf p → next.files.fileAt place = w.files.fileAt place
  rest : next = { w with files := next.files }

theorem replaces_of_replace? {files : FileSystem} {octets : List UInt8}
    (hfiles : w.files.replace? w.cwd p octets = some files) :
    w.Replaces { w with files } p octets := by
  rw [FileSystem.replace?_eq] at hfiles
  obtain ⟨place, hplace, rfl⟩ := Option.map_eq_some_iff.mp hfiles
  refine ⟨?_, fun other hother => ?_, rfl⟩
  · rw [read?, FileSystem.read?, FileSystem.target, FileSystem.follow_put hplace]
  · refine FileSystem.fileAt_put_of_ne ?_
    rwa [← (FileSystem.along_eq_of_filePlace? hplace).1]

theorem Keeps.replaces {octets : List UInt8} (hnext : w.Keeps next)
    (hlast : next.Replaces last p octets) : w.Replaces last p octets where
  read := hlast.read
  files place hplace := by
    rw [hlast.files place (by rwa [hnext.placeOf_eq]), hnext.fileAt_eq]
  rest := by rw [hlast.rest, hnext.rest]

/-- A text that is written replaces the file, and one that is not leaves all files. -/
theorem write_replaces_or_keeps (w : World) (p : Path) (text : String) :
    (∃ next octets, w.write p text = (next, true) ∧ encode? text = some octets ∧
      w.Replaces next p octets) ∨
    ∃ next, w.write p text = (next, false) ∧ w.Keeps next := by
  unfold write
  cases hmade : w.makeDirectory? p.parent with
  | none => exact .inr ⟨w, rfl, .refl w⟩
  | some ready =>
      have hready := keeps_makeDirectory hmade
      cases hoctets : encode? text with
      | none => exact .inr ⟨ready, rfl, hready⟩
      | some octets =>
          cases hfiles : ready.files.replace? ready.cwd p octets with
          | none => exact .inr ⟨ready, by simp [hfiles], hready⟩
          | some files =>
              have hput := replaces_of_replace? hfiles
              exact .inl ⟨_, octets, by simp [hfiles], rfl, hready.replaces hput⟩

end World

end ApiContract.Host
