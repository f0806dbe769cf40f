import ApiContract.Proofs.Host.Draft
import ApiContract.Proofs.Host.Files
import ApiContract.Proofs.Settings.Storable

/-!
# Settings that are saved are loaded

The file of settings that can be stored holds ASCII only, so its bytes are read as its text, and its
text as the sections that were written.  Once the user's settings are saved the directory of their
file stands, and loading finds them as they were.
-/

namespace ApiContract

namespace Host

/-! ## Texts as bytes -/

theorem unifyBreaks_of_not_mem {cs : List Char} (hcs : '\r' ∉ cs) : unifyBreaks cs = cs := by
  fun_induction unifyBreaks cs with
  | case1 => rfl
  | case2 => exact absurd List.mem_cons_self hcs
  | case3 => exact absurd List.mem_cons_self hcs
  | case4 c rest _ _ ih => rw [ih fun hrest => hcs (List.mem_cons_of_mem c hrest)]

/-- Whether a character is in ASCII and not one that reading changes. -/
def isSteady (c : Char) : Bool := c.toNat < 128 && c != '\r'

theorem isSteady_of_isDigit {c : Char} (hc : c.isDigit = true) : isSteady c = true := by
  simp only [Char.isDigit, Bool.and_eq_true, decide_eq_true_eq] at hc
  have hhigh : c.toNat ≤ '9'.toNat := hc.2
  have hsmall : c.toNat < 128 := hhigh.trans_lt (by decide)
  have hreturn : c ≠ '\r' := by
    rintro rfl
    exact absurd hc.1 (by decide)
  simp [isSteady, hsmall, hreturn]

theorem toList_loop_eq (bs : ByteArray) (i : Nat) (before : List UInt8) :
    ByteArray.toList.loop bs i before = before.reverse ++ bs.data.toList.drop i := by
  fun_induction ByteArray.toList.loop bs i before with
  | case1 i before hi ih =>
      have hlength : i < bs.data.toList.length := hi
      have hget : bs.get! i = bs.data.toList[i] := getElem!_pos bs.data i hlength
      rw [ih, List.reverse_cons, List.append_assoc, List.singleton_append, hget,
        List.getElem_cons_drop]
  | case2 i before hi =>
      have hdone : bs.data.toList.length ≤ i := Nat.not_lt.mp hi
      rw [List.drop_of_length_le hdone, List.append_nil]

/-- A text of such characters. -/
def IsSteadyText (s : String) : Prop := ∀ c ∈ s.toList, isSteady c = true

instance : DecidablePred IsSteadyText :=
  fun s => decidable_of_iff (s.toList.all isSteady = true) List.all_eq_true

/-- It has bytes, which are read as the text. -/
theorem exists_octets {s : String} (hs : IsSteadyText s) :
    ∃ octets, encode? s = some octets ∧ decode? octets = some s := by
  have hplain : (s.toList.any fun c => (Text.surrogate? c).isSome) = false := by
    rw [List.any_eq_false]
    intro c hc
    have hascii := hs c hc
    simp only [isSteady, Bool.and_eq_true, decide_eq_true_eq] at hascii
    have hsmall : ¬Text.standInBase ≤ c.toNat := not_le.mpr (hascii.1.trans (by decide))
    simp [Text.surrogate?, hsmall]
  refine ⟨s.toUTF8.toList, by rw [encode?, hplain]; rfl, ?_⟩
  have hbytes : (⟨s.toUTF8.toList.toArray⟩ : ByteArray) = s.toByteArray := by
    rw [ByteArray.toList, toList_loop_eq]
    rfl
  have hvalid : String.fromUTF8? s.toByteArray = some s := by
    rw [String.fromUTF8?, dif_pos s.isValidUTF8]
    rfl
  rw [decode?, hbytes, hvalid, Option.map_some,
    unifyBreaks_of_not_mem fun hreturn => absurd (hs _ hreturn) (by decide), String.ofList_toList]

end Host

namespace Settings

open Host

variable {s : Settings}

/-! ## The file of settings -/

section Texts

open Json
open Binary64 (DecimalText)

variable {text rest : String} {parts : List String} {depth : Nat} {layout : Layout}

theorem isSteadyText_append (htext : IsSteadyText text) (hrest : IsSteadyText rest) :
    IsSteadyText (text ++ rest) := by
  intro c hc
  rw [String.toList_append] at hc
  exact (List.mem_append.mp hc).elim (htext c) (hrest c)

theorem isSteadyText_intercalate (htext : IsSteadyText text)
    (hparts : ∀ part ∈ parts, IsSteadyText part) : IsSteadyText (text.intercalate parts) := by
  induction parts with
  | nil =>
      rw [String.intercalate_nil]
      decide
  | cons first others ih =>
      obtain ⟨hfirst, hothers⟩ := List.forall_mem_cons.mp hparts
      cases others with
      | nil => simpa using hfirst
      | cons second others =>
          rw [String.intercalate_cons_cons]
          exact isSteadyText_append (isSteadyText_append hfirst htext) (ih hothers)

theorem isSteadyText_lineBreak (depth : Nat) (layout : Layout) :
    IsSteadyText (lineBreak depth layout) := by
  cases layout with
  | line =>
      rw [lineBreak]
      decide
  | block indent =>
      refine isSteadyText_append (by decide) fun c hc => ?_
      rw [String.toList_ofList] at hc
      rw [List.eq_of_mem_replicate hc]
      decide

theorem isSteadyText_bracketed {opening closing : String} (hopening : IsSteadyText opening)
    (hclosing : IsSteadyText closing) (hparts : ∀ part ∈ parts, IsSteadyText part) :
    IsSteadyText (bracketed opening closing layout depth parts) := by
  have hmark : IsSteadyText (separator (depth + 1) layout) := by
    cases layout with
    | line =>
        rw [separator]
        decide
    | block indent => exact isSteadyText_append (by decide) (isSteadyText_lineBreak _ _)
  unfold bracketed
  split
  · exact isSteadyText_append hopening hclosing
  · exact isSteadyText_append (isSteadyText_append (isSteadyText_append (isSteadyText_append hopening
      (isSteadyText_lineBreak _ _)) (isSteadyText_intercalate hmark hparts))
        (isSteadyText_lineBreak _ _)) hclosing

theorem isSteadyText_int (n : Int) : IsSteadyText (toString n) := by
  intro c hc
  rw [toList_toString_int] at hc
  rcases List.mem_append.mp hc with hsign | hdigit
  · unfold signText at hsign
    split at hsign
    · rw [List.mem_singleton.mp hsign]
      decide
    · cases hsign
  · exact isSteady_of_isDigit (Text.isDigit_of_mem_toDigits hdigit)

theorem isSteady_of_mem_text {t : DecimalText} {c : Char} (ht : t.IsWellFormed)
    (hc : c ∈ t.text) : isSteady c = true := by
  simp only [DecimalText.text, List.mem_append] at hc
  rcases hc with hwhole | hfraction | hexponent
  · exact isSteady_of_isDigit (ht.whole c hwhole)
  · unfold DecimalText.fractionText at hfraction
    split at hfraction
    · cases hfraction
    · rcases List.mem_cons.mp hfraction with rfl | hdigit
      · decide
      · exact isSteady_of_isDigit (ht.fraction c hdigit)
  · unfold DecimalText.exponentText at hexponent
    split at hexponent
    · cases hexponent
    · rcases List.mem_cons.mp hexponent with rfl | hsigned
      · decide
      · rcases List.mem_cons.mp hsigned with hsign | hdigit
        · rw [hsign]
          split <;> decide
        · exact isSteady_of_isDigit (DecimalText.isDigit_of_mem_padded hdigit)

theorem isSteadyText_numberText {x : Binary64} (hx : x.IsRepresentable) :
    IsSteadyText (numberText x) := by
  cases x with
  | nan => decide
  | infinity negative => cases negative <;> decide
  | finite negative units =>
      obtain ⟨hlimit, hexact⟩ := hx negative units rfl
      obtain ⟨t, ht, htext, -⟩ := Binary64.exists_text hexact hlimit
      intro c hc
      rw [numberText, Binary64.textWith, String.toList_ofList, ← htext] at hc
      rcases List.mem_append.mp hc with hsign | htext
      · have hminus : c = '-' := by
          cases negative with
          | true => exact List.mem_singleton.mp hsign
          | false => cases hsign
        rw [hminus]
        decide
      · exact isSteady_of_mem_text ht htext

end Texts

theorem isSteadyText_fileText (hs : s.IsStorable) : IsSteadyText (fileText s) := by
  have hformat : IsSteadyText (Json.stringText s.format.name) := by
    cases s.format <;> decide
  have hpair {name text : String} (hname : IsSteadyText (Json.stringText name))
      (htext : IsSteadyText text) :
      IsSteadyText (Json.stringText name ++ ": " ++ text) :=
    isSteadyText_append (isSteadyText_append hname (by decide)) htext
  simp only [fileText, toValue, toEntries, Json.render, Json.renderEntries]
  refine isSteadyText_append (isSteadyText_bracketed (by decide) (by decide) ?_) (by decide)
  simp only [List.mem_cons, List.not_mem_nil, or_false, forall_eq_or_imp, forall_eq]
  refine ⟨hpair (by decide) (isSteadyText_bracketed (by decide) (by decide) ?_),
    hpair (by decide) (isSteadyText_bracketed (by decide) (by decide) ?_)⟩
  · simp only [List.mem_cons, List.not_mem_nil, or_false, forall_eq_or_imp, forall_eq]
    exact ⟨hpair (by decide) hformat, hpair (by decide) (isSteadyText_int _)⟩
  · simp only [List.mem_cons, List.not_mem_nil, or_false, forall_eq]
    exact hpair (by decide) (isSteadyText_numberText hs.representable)

/-- Settings that can be stored have a JSON text. -/
theorem isPlain_toValue (hs : s.IsStorable) : s.toValue.IsPlain := by
  have houtput : (Value.map [(.str "format", .str s.format.name), (.str "indent", .int s.indent)])
      |>.IsPlain := by
    refine .map (by simp [Entries.KeysDiffer, Entries.keys]) (by simp) ?_
    simp only [List.mem_cons, List.not_mem_nil, or_false, forall_eq_or_imp, forall_eq]
    exact ⟨.str _, .int hs.indent⟩
  have hloader : (Value.map [(.str "timeout", .float s.timeout)]).IsPlain := by
    refine .map (by simp [Entries.KeysDiffer, Entries.keys]) (by simp) ?_
    simp only [List.mem_cons, List.not_mem_nil, or_false, forall_eq]
    exact .float hs.representable
  refine .map (by simp [toEntries, Entries.KeysDiffer, Entries.keys]) (by simp [toEntries]) ?_
  simp only [toEntries, List.mem_cons, List.not_mem_nil, or_false, forall_eq_or_imp, forall_eq]
  exact ⟨houtput, hloader⟩

/-- The sections of a saved file are those of the settings. -/
theorem exists_octets_fileText (hs : s.IsStorable) :
    ∃ octets, encode? (fileText s) = some octets ∧
      ∀ file path, readSections file path octets = .ok s.toEntries := by
  obtain ⟨octets, hencoded, hdecoded⟩ := exists_octets (isSteadyText_fileText hs)
  refine ⟨octets, hencoded, fun file path => ?_⟩
  have hread : Json.read (fileText s).toList = .ok s.toValue := by
    rw [fileText, String.toList_append]
    exact Json.read_render (.block 2) (isPlain_toValue hs) (by simp [Json.isBlank])
  unfold readSections
  rw [hdecoded]
  dsimp only
  rw [hread]
  rfl

theorem ofEntries_toEntries (hs : s.IsStorable) : ofEntries s.toEntries = .ok s :=
  ofEntries_eq_ok_iff.mpr ⟨misdeclares_toEntries s _, misdeclares_toEntries s _,
    settles_toEntries hs.positive⟩

/-! ## Saving and loading -/

section Worlds

variable {w ready next : World}

/-- What stands in the user's file. -/
def userOctets? (w : World) : Option (List UInt8) := w.files.fileAt (w.placeOf (userFile w))

theorem userFile_of_rest (hrest : next = { w with files := next.files }) :
    userFile next = userFile w := by
  rw [hrest]
  rfl

theorem configDirectory_of_rest (hrest : next = { w with files := next.files }) :
    configDirectory next = configDirectory w := by
  rw [hrest]
  rfl

theorem parent_userFile (w : World) : (userFile w).parent = configDirectory w := by
  simp [userFile, Path.parent, Path.step]

/-- Where the user's file lies once its directory is made. -/
theorem target_configDirectory (hmade : w.makeDirectory? (configDirectory w) = some ready) :
    ready.files.target ready.cwd (configDirectory ready) =
      .found (ready.placeOf (configDirectory ready)) .directory := by
  rw [configDirectory_of_rest (World.keeps_makeDirectory hmade).rest]
  exact World.target_of_makeDirectory hmade

/-- Once the directory is made, what is read is what stands in the file. -/
theorem read?_userFile (hmade : w.makeDirectory? (configDirectory w) = some ready) :
    ready.read? (userFile ready) = userOctets? w := by
  have hkeeps := World.keeps_makeDirectory hmade
  have hread : ready.read? (userFile ready) = userOctets? ready :=
    World.read?_step (by decide) (target_configDirectory hmade)
  rw [hread, userOctets?, hkeeps.fileAt_eq, userFile_of_rest hkeeps.rest, hkeeps.placeOf_eq]
  rfl

/-- To look for settings adds directories at most. -/
theorem keeps_loadUser (w : World) : w.Keeps (loadUser w).1 := by
  unfold loadUser
  split
  · exact World.keeps_makeDirectory (by assumption)
  · exact .refl w

/-- Saved settings are loaded as they were. -/
theorem loadUser_save (hs : s.IsStorable) (hsaved : save w s = .ok next) :
    (loadUser next).2 = .ok s := by
  obtain ⟨octets, hencoded, hsections⟩ := exists_octets_fileText hs
  have hreplaces : w.Replaces next (userFile w) octets := by
    unfold save at hsaved
    rw [World.replaceFile_eq_write] at hsaved
    rcases World.write_replaces_or_keeps w (userFile w) (fileText s) with
      ⟨last, written, hwrite, htext, hlast⟩ | ⟨last, hwrite, -⟩
    · rw [hwrite] at hsaved
      cases hsaved
      rwa [Option.some.inj (hencoded.symm.trans htext)]
    · rw [hwrite] at hsaved
      cases hsaved
  have hread : next.read? ((configDirectory next).step "config.json") = some octets := by
    rw [configDirectory_of_rest hreplaces.rest]
    exact hreplaces.read
  have huser : readUser next = .ok s := by
    refine readUser_eq_ok_iff.mpr ⟨s.toEntries, ?_, ofEntries_toEntries hs⟩
    rw [userSections, userFile, hread]
    exact hsections _ _
  rw [loadUser, World.makeDirectory_of_read? hread]
  exact huser

/-- Settings can be saved in a directory that can be made, unless a directory has the name of the
file. -/
theorem exists_save (hs : s.IsStorable) (hmade : w.makeDirectory? (configDirectory w) = some ready)
    (hfree : ready.files.lookup? (ready.placeOf (userFile ready)) ≠ some .directory) :
    ∃ next, save w s = .ok next := by
  obtain ⟨octets, hencoded, -⟩ := exists_octets_fileText hs
  have hplace : (ready.files.target ready.cwd (userFile w)).filePlace?.isSome := by
    rw [← userFile_of_rest (World.keeps_makeDirectory hmade).rest, userFile,
      World.target_step (by decide) (target_configDirectory hmade)]
    rw [userFile] at hfree
    split
    case h_1 entry hentry =>
      cases entry with
      | directory => exact absurd hentry hfree
      | file octets => rfl
    case h_2 => rfl
  obtain ⟨place, hplace⟩ := Option.isSome_iff_exists.mp hplace
  unfold save
  rw [World.replaceFile_eq_write, World.write, parent_userFile, hmade, hencoded]
  simp only [Option.bind_some, FileSystem.replace?_eq, hplace, Option.map_some]
  exact ⟨_, rfl⟩

/-- The user's file can be replaced if it can be read, or if nothing has its name in its
directory. -/
theorem exists_save_of_read? (hs : s.IsStorable) {octets : List UInt8}
    (hread : w.read? (userFile w) = some octets) : ∃ next, save w s = .ok next := by
  have hmade := World.makeDirectory_of_read? hread
  refine exists_save hs hmade fun hdirectory => ?_
  have hfile : w.files.fileAt (w.placeOf (userFile w)) = some octets := by
    rw [← hread, read?_userFile hmade, userOctets?]
  rw [FileSystem.fileAt, hdirectory] at hfile
  cases hfile

/-! ## Settings that were loaded -/

theorem isPlain_of_given? {sections : Entries} {key : SettingKey} {v : Value}
    (hsections : (Value.map sections).IsPlain) (hv : given? sections key = some v) : v.IsPlain := by
  have hinner {es : Entries} {name : String} {found : Value} (hes : (Value.map es).IsPlain)
      (hfound : Entries.field? es name = some found) : found.IsPlain := by
    cases hes with
    | map _ _ hvalues => exact hvalues _ (Entries.mem_of_field? hfound)
  unfold given? at hv
  split at hv
  · exact hinner (hinner hsections (by assumption)) hv
  · cases hv

/-- Loaded settings can be stored. -/
theorem isStorable_of_readUser (hread : readUser w = .ok s) : s.IsStorable := by
  obtain ⟨sections, hsections, hsettings⟩ := readUser_eq_ok_iff.mp hread
  have hplain : (Value.map sections).IsPlain := by
    unfold userSections at hsections
    split at hsections
    · cases hsections
      exact .map List.Pairwise.nil (by simp) (by simp)
    · unfold readSections at hsections
      split at hsections
      · cases hsections
      · split at hsections
        case h_1 hvalue =>
          cases hsections
          exact Json.readInvariant_isPlain.of_read hvalue
        all_goals cases hsections
  exact isStorable_of_settles (ofEntries_eq_ok_iff.mp hsettings).2.2
    fun _ _ => isPlain_of_given? hplain

end Worlds

end Settings

end ApiContract
