import ApiContract.Proofs.Json.Reading
import ApiContract.Proofs.Settings.Layers
import ApiContract.Settings.Store

/-!
# Precedence of settings

A setting has the value of the highest layer that gives it one: the command line, the environment,
the project's file, the user's file, and else its default.  There is one exception.  A project's
file may have something other than a mapping where a section should be.  That takes the place of the
user's section, and when a higher layer gives a setting of the section it goes unnoticed; then
the user's values for the other settings of the section are lost.
-/

namespace ApiContract.Settings

open Host
open Schema (bind_eq_ok_iff map_eq_ok_iff mapError_eq_ok_iff toOption_eq_some_iff)

/-- The value that the command line gives to a setting. -/
def Flags.given? (flags : Flags) (key : SettingKey) : Option Value :=
  if key = .format then notNull? flags.format
  else if key = .indent then notNull? flags.indent
  else if key = .timeout then notNull? flags.timeout
  else .none

namespace Upper

variable (upper : Upper)

/-- The value that the environment gives to a setting. -/
def environment? (key : SettingKey) : Option Value :=
  if key = .indent then notNull? (variableValue upper.indentVariable)
  else if key = .timeout then notNull? (variableValue upper.timeoutVariable)
  else none

/-- The sections that the project's file declares. -/
def sections : Entries := upper.project.getD []

/-- Whether the command line or the environment gives a setting of a section. -/
def touches (part : String) : Bool :=
  SettingKey.all.any fun key =>
    key.part == part && ((upper.flags.given? key).or (upper.environment? key)).isSome

/-- The value of the highest layer that gives one to a setting, over the sections of a user. -/
def highest? (user : Entries) (key : SettingKey) : Option Value :=
  (upper.flags.given? key).or <| (upper.environment? key).or <|
    (Settings.given? upper.sections key).or (Settings.given? user key)

/-- The value that reaches a setting: as the highest one, but a project that misdeclares a section
hides that of the user. -/
def reaching? (user : Entries) (key : SettingKey) : Option Value :=
  (upper.flags.given? key).or <| (upper.environment? key).or <|
    (Settings.given? upper.sections key).or <|
      if misdeclares upper.sections key.part then none else Settings.given? user key

end Upper

variable {upper : Upper} {user s : Settings} {sections : Entries} {key : SettingKey}

/-! ## All layers together -/

theorem misdeclares_toEntries (s : Settings) (part : String) :
    misdeclares s.toEntries part = false := by
  unfold misdeclares
  cases hfound : Entries.field? s.toEntries part with
  | none => rfl
  | some v =>
      have hentry := Entries.mem_of_field? hfound
      simp only [toEntries, List.mem_cons, Prod.mk.injEq, List.not_mem_nil, or_false] at hentry
      rcases hentry with ⟨-, rfl⟩ | ⟨-, rfl⟩ <;> rfl

/-- What reaches a setting is what all layers together give it. -/
theorem given?_combine (hproject : SettingsDiffer upper.sections) (hkey : key ∈ SettingKey.all) :
    given? (combine user upper) key = upper.reaching? user.toEntries key := by
  simp only [SettingKey.all, List.mem_cons, List.not_mem_nil, or_false] at hkey
  unfold combine Upper.reaching? Flags.given? Upper.environment?
  rw [← Upper.sections]
  rcases hkey with rfl | rfl | rfl <;>
    simp +decide (disch := decide) [given?_layerIfGiven_self, given?_layerIfGiven_of_ne,
      given?_layer hproject]

/-- A section is in order unless the project misdeclares it and no higher layer touches it. -/
theorem misdeclares_combine (hproject : SettingsDiffer upper.sections) (part : String) :
    misdeclares (combine user upper) part =
      (misdeclares upper.sections part && !upper.touches part) := by
  have hbase : misdeclares (layer user.toEntries upper.sections) part =
      misdeclares upper.sections part := by
    rw [misdeclares_layer hproject.sections, misdeclares_toEntries]
    unfold misdeclares
    cases Entries.field? upper.sections part <;> rfl
  unfold combine Upper.touches Flags.given? Upper.environment?
  rw [← Upper.sections]
  simp only [misdeclares_layerIfGiven, hbase, SettingKey.all, List.any_cons, List.any_nil]
  simp +decide only [Option.isSome_or, if_true, if_false, SettingKey.format, SettingKey.indent,
    SettingKey.timeout]
  cases "output" == part <;> cases "loader" == part <;>
    simp [Bool.and_assoc, Bool.and_comm, Bool.and_left_comm]

/-! ## Settings of a user, and their sections -/

theorem coerceIndent_int (n : Nat) : coerceIndent (.int n) = .ok n := by
  simp [coerceIndent, coerceInt, bind, Except.bind]

theorem isPositive_of_coerceTimeout {v : Value} {x : Binary64} (hv : coerceTimeout v = .ok x) :
    x.isPositive = true := by
  obtain ⟨y, -, hy⟩ := bind_eq_ok_iff.mp hv
  split at hy
  · cases hy
    assumption
  · cases hy

theorem coerceTimeout_float {x : Binary64} (hx : x.isPositive = true) :
    coerceTimeout (.float x) = .ok x := by
  have hstep : coerceTimeout (.float x) = if x.isPositive then .ok x else .error .notPositive := rfl
  rw [hstep, if_pos hx]

theorem isPositive_timeout {given : SettingKey → Option Value} (hs : Settles given s) :
    s.timeout.isPositive = true := by
  have htimeout := hs.timeout
  cases hgiven : given .timeout with
  | none =>
      rw [hgiven] at htimeout
      rw [← Except.ok.inj htimeout]
      decide +kernel
  | some v =>
      rw [hgiven] at htimeout
      exact isPositive_of_coerceTimeout htimeout

theorem given?_format_toEntries (s : Settings) :
    given? s.toEntries .format = some (.str s.format.name) := by
  simp [given?, toEntries, SettingKey.format, Entries.field?_cons_self]

theorem given?_indent_toEntries (s : Settings) :
    given? s.toEntries .indent = some (.int s.indent) := by
  simp [given?, toEntries, SettingKey.indent, Entries.field?_cons_self, Entries.field?_cons_of_ne]

theorem given?_timeout_toEntries (s : Settings) :
    given? s.toEntries .timeout = some (.float s.timeout) := by
  simp [given?, toEntries, SettingKey.timeout, Entries.field?_cons_self, Entries.field?_cons_of_ne]

/-- Settings that are put into sections come out of them as they were. -/
theorem settles_toEntries (hs : s.timeout.isPositive = true) : Settles (given? s.toEntries) s where
  format := by
    simp [given?_format_toEntries, coerceFormat]
  indent := by
    simp [given?_indent_toEntries, coerceIndent_int]
  timeout := by
    simp [given?_timeout_toEntries, coerceTimeout_float hs]

/-- Under higher layers it makes no difference whether a user's settings are read from the sections
that they were made of or from those that they are put into. -/
theorem settles_reaching_iff (huser : Settles (given? sections) user) :
    Settles (upper.reaching? user.toEntries) s ↔ Settles (upper.reaching? sections) s := by
  have hown := settles_toEntries (isPositive_timeout huser)
  have hswap {α : Type} {coerce : Value → Coerced α} {default a b : α} {key : SettingKey}
      (hleft : (given? user.toEntries key).elim (.ok default) coerce = .ok b)
      (hright : (given? sections key).elim (.ok default) coerce = .ok b) :
      (upper.reaching? user.toEntries key).elim (.ok default) coerce = .ok a ↔
        (upper.reaching? sections key).elim (.ok default) coerce = .ok a := by
    unfold Upper.reaching?
    cases upper.flags.given? key with
    | some v => rfl
    | none => cases upper.environment? key with
      | some v => rfl
      | none => cases given? upper.sections key with
        | some v => rfl
        | none =>
            cases misdeclares upper.sections key.part with
            | true => rfl
            | false => simp [hleft, hright]
  constructor
  · rintro ⟨hformat, hindent, htimeout⟩
    exact ⟨(hswap hown.format huser.format).mp hformat, (hswap hown.indent huser.indent).mp hindent,
      (hswap hown.timeout huser.timeout).mp htimeout⟩
  · rintro ⟨hformat, hindent, htimeout⟩
    exact ⟨(hswap hown.format huser.format).mpr hformat, (hswap hown.indent huser.indent).mpr hindent,
      (hswap hown.timeout huser.timeout).mpr htimeout⟩

/-- All layers make settings exactly if every section that the project misdeclares is touched by a
higher layer, and what reaches each setting is accepted. -/
theorem resolve_eq_ok_iff (huser : Settles (given? sections) user)
    (hproject : SettingsDiffer upper.sections) :
    resolve user upper = .ok s ↔
      (∀ key ∈ SettingKey.all, misdeclares upper.sections key.part = true →
        upper.touches key.part = true) ∧ Settles (upper.reaching? sections) s := by
  have hreach (key : SettingKey) (hkey : key ∈ SettingKey.all) :
      given? (combine user upper) key = upper.reaching? user.toEntries key :=
    given?_combine hproject hkey
  have hsettles : Settles (given? (combine user upper)) s ↔
      Settles (upper.reaching? user.toEntries) s := by
    constructor
    · rintro ⟨hformat, hindent, htimeout⟩
      exact ⟨hreach .format (by decide) ▸ hformat, hreach .indent (by decide) ▸ hindent,
        hreach .timeout (by decide) ▸ htimeout⟩
    · rintro ⟨hformat, hindent, htimeout⟩
      exact ⟨hreach .format (by decide) ▸ hformat, hreach .indent (by decide) ▸ hindent,
        hreach .timeout (by decide) ▸ htimeout⟩
  rw [resolve, mapError_eq_ok_iff, ofEntries_eq_ok_iff, hsettles, settles_reaching_iff huser,
    misdeclares_combine hproject, misdeclares_combine hproject, ← and_assoc]
  refine and_congr_left fun _ => ?_
  simp only [SettingKey.all, List.mem_cons, List.not_mem_nil, or_false, forall_eq_or_imp,
    forall_eq, Bool.and_eq_false_imp, Bool.not_eq_false']
  exact ⟨fun ⟨houtput, hloader⟩ => ⟨houtput, houtput, hloader⟩,
    fun ⟨houtput, _, hloader⟩ => ⟨houtput, hloader⟩⟩

/-! ## Settings of a run -/

/-- The sections that the user's file declares; a missing file declares none. -/
def userSections (w : World) : Except Fault Entries :=
  match w.read? (userFile w) with
  | none => .ok []
  | some octets => readSections .user (userFile w) octets

/-- The layers above the user's settings in a world. -/
def upperIn (w : World) (project : Option Entries) (flags : Flags) : Upper :=
  ⟨project, (w.valueOf? "SPECSHAPE_INDENT").getD "", (w.valueOf? "SPECSHAPE_TIMEOUT").getD "", flags⟩

theorem readUser_eq_ok_iff {w : World} :
    readUser w = .ok s ↔ ∃ sections, userSections w = .ok sections ∧ ofEntries sections = .ok s := by
  unfold readUser userSections
  cases w.read? (userFile w) with
  | none =>
      have hempty : ofEntries [] = .ok Settings.default := rfl
      simp [hempty, eq_comm]
  | some octets =>
      rw [bind_eq_ok_iff]
      refine exists_congr fun sections => and_congr_right fun _ => ?_
      cases ofEntries sections <;> simp

/-- What is read from a settings file declares nothing twice. -/
theorem settingsDiffer_of_readSections {file : SettingsFile} {path : Path} {octets : List UInt8}
    (hread : readSections file path octets = .ok sections) : SettingsDiffer sections := by
  unfold readSections at hread
  split at hread
  · cases hread
  · split at hread
    case h_1 hvalue =>
      cases hread
      exact settingsDiffer_of_isUnambiguous (Json.isUnambiguous_of_read hvalue)
    all_goals cases hread

theorem settingsDiffer_of_readProject {w : World} {project : Option Entries}
    (hread : readProject w = .ok project) : SettingsDiffer (project.getD []) := by
  unfold readProject at hread
  split at hread
  · cases hread
    exact settingsDiffer_of_isUnambiguous rfl
  · obtain ⟨sections, hsections, rfl⟩ := map_eq_ok_iff.mp hread
    exact settingsDiffer_of_readSections hsections

theorem resolveIn_eq {w : World} {project : Option Entries} (huser : readUser w = .ok user)
    (hproject : readProject w = .ok project) (flags : Flags) :
    resolveIn w flags = (resolve user (upperIn w project flags)).mapError .settings := by
  unfold resolveIn
  rw [huser, hproject]
  rfl

theorem resolveIn_eq_ok_iff {w : World} {flags : Flags} :
    resolveIn w flags = .ok s ↔ ∃ user project, readUser w = .ok user ∧
      readProject w = .ok project ∧ resolve user (upperIn w project flags) = .ok s := by
  constructor
  · intro hresolve
    have hsteps := hresolve
    unfold resolveIn at hsteps
    obtain ⟨user, huser, hsteps⟩ := bind_eq_ok_iff.mp hsteps
    obtain ⟨project, hproject, -⟩ := bind_eq_ok_iff.mp hsteps
    rw [resolveIn_eq huser hproject, mapError_eq_ok_iff] at hresolve
    exact ⟨user, project, huser, hproject, hresolve⟩
  · rintro ⟨user, project, huser, hproject, hresolve⟩
    rw [resolveIn_eq huser hproject, mapError_eq_ok_iff]
    exact hresolve

/-- Where a run has settings it has them with any other format that the command line asks for. -/
theorem load_with_format {w : World} {flags : Flags} (f : OutputFormat)
    (hload : (load w flags).2 = .ok s) :
    (load w { flags with format := .str f.name }).2 = .ok { s with format := f } := by
  unfold load at hload ⊢
  split at hload
  case h_2 => cases hload
  case h_1 ready _ =>
    obtain ⟨user, project, huser, hproject, hresolve⟩ := resolveIn_eq_ok_iff.mp hload
    obtain ⟨sections, -, hsections⟩ := readUser_eq_ok_iff.mp huser
    have hsettles : Settles (given? sections) user := (ofEntries_eq_ok_iff.mp hsections).2.2
    have hdiffer (flags : Flags) : SettingsDiffer (upperIn ready project flags).sections :=
      settingsDiffer_of_readProject hproject
    obtain ⟨htouched, hreaching⟩ := (resolve_eq_ok_iff hsettles (hdiffer _)).mp hresolve
    refine resolveIn_eq_ok_iff.mpr ⟨user, project, huser, hproject, ?_⟩
    refine (resolve_eq_ok_iff hsettles (hdiffer _)).mpr ⟨fun key hkey hbad => ?_, ?_⟩
    · -- What the other flags and the environment touch they still touch.
      obtain ⟨other, hother, htouches⟩ := List.any_eq_true.mp (htouched key hkey hbad)
      refine List.any_eq_true.mpr ⟨other, hother, ?_⟩
      simp only [Bool.and_eq_true, Option.isSome_or, Bool.or_eq_true] at htouches ⊢
      refine ⟨htouches.1, htouches.2.imp_left fun hgiven => ?_⟩
      by_cases hformat : other = .format
      · rw [hformat]
        rfl
      · simpa [upperIn, Flags.given?, hformat] using hgiven
    · have hgiven : (upperIn ready project { flags with format := .str f.name }).reaching? sections
          .format = some (.str f.name) := rfl
      exact {
        format := by simp [hgiven, coerceFormat]
        indent := hreaching.indent
        timeout := hreaching.timeout }

/-- What a run finds where it looks for settings: the world with the user's directory made, the
sections and the settings of the user, and what the project declares. -/
structure Sources where
  ready : World
  sections : Entries
  user : Settings
  project : Option Entries

/-- The sources of a run whose files can be used. -/
structure Sources.AreOf (f : Sources) (w : World) : Prop where
  ready : w.makeDirectory? (configDirectory w) = some f.ready
  sections : userSections f.ready = .ok f.sections
  user : ofEntries f.sections = .ok f.user
  project : readProject f.ready = .ok f.project

/-- With a user's file that is accepted and a project's file that is a mapping, the settings of a
run are made or the combination is refused.  They are made exactly if every section that the project
misdeclares is touched by a higher layer and what reaches each setting is accepted, and then they
are what reaches them.  Unless the project misdeclares its section, what reaches a setting is the
value of the highest layer that gives it one. -/
theorem load_takes_highest {w : World} {f : Sources} (hf : f.AreOf w) (flags : Flags) :
    let upper := upperIn f.ready f.project flags
    (∀ s, (load w flags).2 = .ok s ↔
      (∀ key ∈ SettingKey.all, misdeclares upper.sections key.part = true →
        upper.touches key.part = true) ∧ Settles (upper.reaching? f.sections) s) ∧
    (∀ fault, (load w flags).2 = .error fault →
      ∃ mismatches, fault = .settings (.badCombination mismatches)) ∧
    (∀ key, misdeclares upper.sections key.part = false →
      upper.reaching? f.sections key = upper.highest? f.sections key) := by
  intro upper
  have huser : readUser f.ready = .ok f.user := readUser_eq_ok_iff.mpr ⟨_, hf.sections, hf.user⟩
  have hsettles : Settles (given? f.sections) f.user := (ofEntries_eq_ok_iff.mp hf.user).2.2
  have hload : (load w flags).2 = (resolve f.user upper).mapError .settings := by
    rw [load, hf.ready]
    exact resolveIn_eq huser hf.project flags
  rw [hload]
  refine ⟨fun s => ?_, fun fault hfault => ?_, fun key hkey => ?_⟩
  · rw [mapError_eq_ok_iff]
    exact resolve_eq_ok_iff hsettles (settingsDiffer_of_readProject hf.project)
  · rw [resolve] at hfault
    cases hcombined : ofEntries (combine f.user upper) with
    | ok s => simp [hcombined, Except.mapError] at hfault
    | error mismatches =>
        rw [hcombined] at hfault
        cases hfault
        exact ⟨mismatches, rfl⟩
  · simp [Upper.reaching?, Upper.highest?, hkey]

/-- The sources of a run, if its files can be used. -/
def sources? (w : World) : Option Sources := do
  let ready ← w.makeDirectory? (configDirectory w)
  let sections ← (userSections ready).toOption
  let user ← (ofEntries sections).toOption
  let project ← (readProject ready).toOption
  some ⟨ready, sections, user, project⟩

theorem areOf_of_sources? {w : World} {f : Sources} (hfound : sources? w = some f) : f.AreOf w := by
  simp only [sources?, Option.bind_eq_bind, Option.bind_eq_some_iff, toOption_eq_some_iff] at hfound
  obtain ⟨ready, hready, sections, hsections, user, huser, project, hproject, hfound⟩ := hfound
  cases hfound
  exact ⟨hready, hsections, huser, hproject⟩

/-- A world with a user's settings file and a project's. -/
def settled (userText projectText : String) : World :=
  { files := ⟨[(["home"], .directory), (["home", "user"], .directory),
      (["home", "user", ".config"], .directory),
      (["home", "user", ".config", "specshape"], .directory),
      (["home", "user", ".config", "specshape", "config.json"],
        .file ((encode? userText).getD [])),
      (["work"], .directory),
      (["work", "specshape.json"], .file ((encode? projectText).getD []))]⟩
    cwd := ["work"]
    environment := [("HOME", "/home/user"), ("SPECSHAPE_TIMEOUT", "2.5")]
    platform := "Linux", replies := [], stdin := "", isTerminal := false, stamp := "0" }

/-- Both files declare the output, the project only part of it, and misdeclares the loader. -/
def pinned : World :=
  settled "\x7b\"output\": \x7b\"format\": \"json\", \"indent\": 8\x7d\x7d"
    "\x7b\"output\": \x7b\"indent\": \"4\"\x7d, \"loader\": []\x7d"

theorem pinned_takes_highest :
    ∃ f : Sources, f.AreOf pinned ∧ ∃ s, (load pinned .none).2 = .ok s ∧
      s.format = .json ∧ s.indent = 4 ∧
      Settles ((upperIn f.ready f.project .none).reaching? f.sections) s := by
  have hfound : (sources? pinned).isSome = true := by decide +kernel
  obtain ⟨f, hf⟩ := Option.isSome_iff_exists.mp hfound
  have hsettled : ∃ s, (load pinned .none).2.toOption = some s ∧
      (s.format == .json && s.indent == 4) = true :=
    (Option.any_eq_true _ _).mp (by decide +kernel)
  obtain ⟨s, hs, hvalues⟩ := hsettled
  obtain ⟨hformat, hindent⟩ := Bool.and_eq_true_iff.mp hvalues
  have hok := toOption_eq_some_iff.mp hs
  exact ⟨f, areOf_of_sources? hf, s, hok, eq_of_beq hformat, eq_of_beq hindent,
    (((load_takes_highest (areOf_of_sources? hf) .none).1 s).mp hok).2⟩

/-- The project has a text where its output section should be. -/
def muted : World :=
  settled "\x7b\"output\": \x7b\"format\": \"json\"\x7d\x7d" "\x7b\"output\": \"plain\"\x7d"

/-- The format of the user's file gets lost, although no other layer gives one. -/
theorem muted_loses_format :
    ∃ f : Sources, f.AreOf muted ∧ ∃ s, (load muted ⟨.int 3, .null, .null⟩).2 = .ok s ∧
      ¬ Settles ((upperIn f.ready f.project ⟨.int 3, .null, .null⟩).highest? f.sections) s := by
  have hfound : ∃ f, sources? muted = some f ∧
      (((upperIn f.ready f.project ⟨.int 3, .null, .null⟩).highest? f.sections .format).any
        fun v => (coerceFormat v).toOption == some .json) = true :=
    (Option.any_eq_true _ _).mp (by decide +kernel)
  obtain ⟨f, hf, hhighest⟩ := hfound
  have hsettled : ∃ s, (load muted ⟨.int 3, .null, .null⟩).2.toOption = some s ∧
      (s.format == .auto) = true :=
    (Option.any_eq_true _ _).mp (by decide +kernel)
  obtain ⟨s, hs, hauto⟩ := hsettled
  refine ⟨f, areOf_of_sources? hf, s, toOption_eq_some_iff.mp hs, fun hsettles => ?_⟩
  obtain ⟨v, hv, hjson⟩ := (Option.any_eq_true _ _).mp hhighest
  have hcoerced := hsettles.format
  rw [hv] at hcoerced
  rw [show coerceFormat v = .ok s.format from hcoerced, eq_of_beq hauto] at hjson
  cases hjson

end ApiContract.Settings
