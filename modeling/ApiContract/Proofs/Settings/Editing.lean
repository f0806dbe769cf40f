import ApiContract.CommandLine.Configure
import ApiContract.Proofs.CommandLine.Steps
import ApiContract.Proofs.Settings.Saving

/-!
# Settings under a sequence of edits

An edit sets one of the user's settings or resets them all.  If the user's file is absent or holds
settings, it is so after any sequence of edits: an edit that fails leaves every file, and one that
succeeds leaves a file from which the very settings are loaded that it gave.
-/

namespace ApiContract.Settings

open Host
open CommandLine (Ends Run)
open Schema (bind_eq_ok_iff mapError_eq_ok_iff)

/-- A command that changes the user's settings. -/
inductive Edit where
  | set (key value : String)
  | reset
  deriving DecidableEq, Repr

namespace Edit

def command : Edit → Run Unit
  | .set key value => CommandLine.setSetting key value
  | .reset => CommandLine.resetSettings true

/-- The world after an edit, and the settings that it gives. -/
def apply (w : World) : Edit → World × Except Fault Settings
  | .set key value => setUser w key value
  | .reset => match resetUser w with
      | .ok next => (next, .ok Settings.default)
      | .error fault => (w, .error fault)

end Edit

/-- The world after edits one after another. -/
def afterEdits (w : World) (edits : List Edit) : World :=
  edits.foldl (fun w edit => (edit.apply w).1) w

/-- The user's file is absent or holds settings. -/
def IsUsable (w : World) : Prop := userOctets? w = none ∨ ∃ s, (loadUser w).2 = .ok s

/-- Settings that differ from others in one of them at most, which has the value of a text. -/
structure Changes (user : Settings) (key value : String) (s : Settings) : Prop where
  known : SettingKey.ofText key ∈ SettingKey.all
  kept : ∀ other ∈ SettingKey.all, other ≠ SettingKey.ofText key →
    given? s.toEntries other = given? user.toEntries other
  settles : Settles (fun other => if other = SettingKey.ofText key then some (.str value)
    else given? user.toEntries other) s

variable {w ready next : World} {user s : Settings} {key value : String}

/-! ## One setting -/

theorem given?_set (user : Settings) (k : SettingKey) (value : String) :
    given? (layer user.toEntries (single k (.str value))) = fun other =>
      if other = k then some (.str value) else given? user.toEntries other := by
  funext other
  have hlayer : layer user.toEntries (single k (.str value)) =
      layerIfGiven user.toEntries k (.str value) := rfl
  rw [hlayer]
  split
  case isTrue heq =>
    rw [heq, given?_layerIfGiven_self]
    rfl
  case isFalse hne => exact given?_layerIfGiven_of_ne _ _ (Ne.symm hne)

/-- Settings are determined by what settles them. -/
theorem changes_of_set (huser : user.IsStorable) (hset : set user key value = .ok s) :
    Changes user key value s := by
  unfold set at hset
  dsimp only at hset
  split at hset
  case isFalse => cases hset
  case isTrue hknown =>
    have hsettles := (ofEntries_eq_ok_iff.mp (mapError_eq_ok_iff.mp hset)).2.2
    rw [given?_set] at hsettles
    have hown := settles_toEntries huser.positive
    refine ⟨List.contains_iff_mem.mp hknown, fun other hother hne => ?_, hsettles⟩
    simp only [SettingKey.all, List.mem_cons, List.not_mem_nil, or_false] at hother
    rcases hother with rfl | rfl | rfl
    · have hformat := hsettles.format
      rw [if_neg hne, hown.format] at hformat
      rw [given?_format_toEntries, given?_format_toEntries, Except.ok.inj hformat]
    · have hindent := hsettles.indent
      rw [if_neg hne, hown.indent] at hindent
      rw [given?_indent_toEntries, given?_indent_toEntries, Except.ok.inj hindent]
    · have htimeout := hsettles.timeout
      rw [if_neg hne, hown.timeout] at htimeout
      rw [given?_timeout_toEntries, given?_timeout_toEntries, Except.ok.inj htimeout]

theorem isStorable_of_changes (huser : user.IsStorable) (hs : Changes user key value s) :
    s.IsStorable := by
  refine isStorable_of_settles hs.settles fun other v hv => ?_
  split at hv
  · cases hv
    exact .str value
  · exact isPlain_of_given? (isPlain_toValue huser) hv

theorem isStorable_default : Settings.default.IsStorable :=
  isStorable_of_settles (show Settles (fun _ => none) Settings.default from ⟨rfl, rfl, rfl⟩) nofun

/-! ## One edit -/

/-- A setting that is set was made of the settings that were loaded, and is saved with them. -/
theorem exists_save_of_setUser (hset : (setUser w key value).2 = .ok s) :
    ∃ user, (loadUser w).2 = .ok user ∧ set user key value = .ok s ∧
      save (loadUser w).1 s = .ok (setUser w key value).1 := by
  unfold setUser at hset ⊢
  dsimp only at hset ⊢
  split at hset
  case h_2 => cases hset
  case h_1 next changed hstep =>
    cases hset
    obtain ⟨user, huser, hstep⟩ := bind_eq_ok_iff.mp hstep
    obtain ⟨changed, hchanged, hstep⟩ := bind_eq_ok_iff.mp hstep
    obtain ⟨last, hlast, hstep⟩ := bind_eq_ok_iff.mp hstep
    cases hstep
    exact ⟨user, huser, mapError_eq_ok_iff.mp hchanged, hlast⟩

/-- A setting that cannot be set leaves the world that was looked at. -/
theorem setUser_of_error {fault : Fault} (hset : (setUser w key value).2 = .error fault) :
    (setUser w key value).1 = (loadUser w).1 := by
  unfold setUser at hset ⊢
  dsimp only at hset ⊢
  split at hset
  case h_1 => cases hset
  case h_2 => rfl

theorem loadUser_of_ready (hmade : w.makeDirectory? (configDirectory w) = some ready) :
    loadUser w = (ready, readUser ready) := by
  rw [loadUser, hmade]

/-- Loaded settings can be stored. -/
theorem isStorable_of_loadUser (hload : (loadUser w).2 = .ok s) : s.IsStorable := by
  unfold loadUser at hload
  split at hload
  · exact isStorable_of_readUser hload
  · cases hload

/-- To look for settings again finds them again. -/
theorem loadUser_again (hload : (loadUser w).2 = .ok s) :
    (loadUser (loadUser w).1).2 = .ok s := by
  cases hmade : w.makeDirectory? (configDirectory w) with
  | none =>
      rw [loadUser, hmade] at hload
      cases hload
  | some ready =>
      have hagain := World.makeDirectory_of_target (target_configDirectory hmade)
      rw [loadUser_of_ready hmade] at hload ⊢
      rw [loadUser_of_ready hagain]
      exact hload

/-- An edit that fails leaves the world as it was, or as it was looked at. -/
theorem apply_of_error {edit : Edit} {fault : Fault} (hfails : (edit.apply w).2 = .error fault) :
    (edit.apply w).1 = w ∨ (edit.apply w).1 = (loadUser w).1 := by
  cases edit with
  | set key value => exact .inr (setUser_of_error hfails)
  | reset =>
      unfold Edit.apply at hfails ⊢
      dsimp only at hfails ⊢
      split at hfails
      · cases hfails
      · exact .inl rfl

/-- The settings that an edit gives are loaded from then on. -/
theorem loadUser_of_ok {edit : Edit} (hgives : (edit.apply w).2 = .ok s) :
    (loadUser (edit.apply w).1).2 = .ok s := by
  cases edit with
  | set key value =>
      obtain ⟨user, huser, hset, hsaved⟩ := exists_save_of_setUser hgives
      exact loadUser_save
        (isStorable_of_changes (isStorable_of_loadUser huser)
          (changes_of_set (isStorable_of_loadUser huser) hset)) hsaved
  | reset =>
      unfold Edit.apply at hgives ⊢
      dsimp only at hgives ⊢
      split at hgives
      case h_1 next hsaved =>
        cases hgives
        exact loadUser_save isStorable_default hsaved
      case h_2 => cases hgives

/-- A change that is announced when it succeeds. -/
theorem ends_change {α : Type} (f : World → World × Except Fault α) (kind : MessageKind)
    (text : String) :
    Ends (do let _ ← Run.change f; Run.say kind text) w
      (((f w).2.map fun _ => ()).mapError .failed) "" (f w).1 := by
  have hchange := Ends.change_outcome (w := w) f
  cases houtcome : (f w).2 with
  | ok a =>
      rw [houtcome] at hchange
      exact hchange.after (.say kind text)
  | error fault =>
      rw [houtcome] at hchange
      exact hchange.stop

/-- The command of an edit leaves the world of the edit, and fails as the edit does. -/
theorem ends_command (edit : Edit) (w : World) :
    Ends edit.command w (((edit.apply w).2.map fun _ => ()).mapError .failed) ""
      (edit.apply w).1 := by
  cases edit with
  | set key value => exact ends_change _ _ _
  | reset =>
      have hends := ends_change (w := w) (fun w => match resetUser w with
        | .ok next => (next, .ok ())
        | .error fault => (w, .error fault)) .success "Configuration reset to defaults."
      unfold Edit.apply
      dsimp only at hends ⊢
      cases hreset : resetUser w with
      | ok next =>
          rw [hreset] at hends
          exact hends
      | error fault =>
          rw [hreset] at hends
          exact hends

/-! ## Sequences of edits -/

/-- An edit leaves a usable file usable. -/
theorem isUsable_apply (hw : IsUsable w) (edit : Edit) : IsUsable (edit.apply w).1 := by
  cases houtcome : (edit.apply w).2 with
  | ok s => exact .inr ⟨s, loadUser_of_ok houtcome⟩
  | error fault =>
      rcases apply_of_error houtcome with hsame | hlooked
      · rwa [hsame]
      · rw [hlooked]
        rcases hw with habsent | ⟨s, hload⟩
        · refine .inl ?_
          have hkeeps := keeps_loadUser w
          rwa [userOctets?, hkeeps.fileAt_eq, hkeeps.placeOf_eq, userFile_of_rest hkeeps.rest]
        · exact .inr ⟨s, loadUser_again hload⟩

theorem isUsable_afterEdits (hw : IsUsable w) (edits : List Edit) :
    IsUsable (afterEdits w edits) := by
  induction edits generalizing w with
  | nil => exact hw
  | cons edit rest ih => exact ih (isUsable_apply hw edit)

/-- The user's settings stay in order: from a world where the user's file is absent or holds
settings, after any edits it still is or does.  From there the command of a further edit does what
the edit does; if that fails all files are as they were; if it succeeds the settings that it gives
are those that are loaded from then on; and a setting that was set is the only one that may differ
from what was loaded before, and has the value of its text.  In any world where there is a file to
replace, whatever it holds, or nothing in its place, the settings can be reset, and then the
defaults are loaded. -/
theorem edits_keep_usable (hw : IsUsable w) (edits : List Edit) :
    let v := afterEdits w edits
    IsUsable v ∧
    (∀ edit : Edit,
      Ends edit.command v (((edit.apply v).2.map fun _ => ()).mapError .failed) ""
        (edit.apply v).1 ∧
      (∀ fault, (edit.apply v).2 = .error fault → v.Keeps (edit.apply v).1) ∧
      ∀ s, (edit.apply v).2 = .ok s → (loadUser (edit.apply v).1).2 = .ok s) ∧
    (∀ key value s, ((Edit.set key value).apply v).2 = .ok s →
      ∃ user, (loadUser v).2 = .ok user ∧ Changes user key value s) ∧
    ∀ any : World,
      ((∃ octets, any.read? (userFile any) = some octets) ∨
        ∃ ready, any.makeDirectory? (configDirectory any) = some ready ∧
          ready.files.lookup? (ready.placeOf (userFile ready)) = none) →
      ∃ next, Edit.reset.apply any = (next, .ok Settings.default) ∧
        (loadUser next).2 = .ok Settings.default := by
  intro v
  refine ⟨isUsable_afterEdits hw edits, fun edit => ⟨ends_command edit v, fun fault hfails => ?_,
    fun s hgives => loadUser_of_ok hgives⟩, fun key value s hset => ?_, fun any hany => ?_⟩
  · rcases apply_of_error hfails with hsame | hlooked
    · rw [hsame]
      exact .refl v
    · rw [hlooked]
      exact keeps_loadUser v
  · obtain ⟨user, huser, hchanged, -⟩ := exists_save_of_setUser hset
    exact ⟨user, huser, changes_of_set (isStorable_of_loadUser huser) hchanged⟩
  · obtain ⟨next, hsaved⟩ : ∃ next, resetUser any = .ok next := by
      rcases hany with ⟨octets, hread⟩ | ⟨ready, hmade, hnone⟩
      · exact exists_save_of_read? isStorable_default hread
      · exact exists_save isStorable_default hmade (by rw [hnone]; simp)
    refine ⟨next, ?_, loadUser_save isStorable_default hsaved⟩
    rw [Edit.apply, hsaved]

/-- The user's timeout is infinite. -/
def endless : World :=
  settled "\x7b\"loader\": \x7b\"timeout\": Infinity\x7d\x7d" "\x7b\x7d"

/-- An infinite timeout outlasts an edit that fails and one of another setting. -/
theorem endless_edits_keep_usable :
    let v := afterEdits endless [.set "loader.timeout" "never"]
    IsUsable endless ∧ IsUsable v ∧
      ((Edit.set "output.indent" " +07").apply v).2 = .ok ⟨.auto, 7, .infinity false⟩ ∧
      (loadUser ((Edit.set "output.indent" " +07").apply v).1).2 =
        .ok ⟨.auto, 7, .infinity false⟩ := by
  have hload : (loadUser endless).2 = .ok ⟨.auto, 2, .infinity false⟩ :=
    Schema.toOption_eq_some_iff.mp (by decide +kernel)
  have hset : ((Edit.set "output.indent" " +07").apply
      (afterEdits endless [.set "loader.timeout" "never"])).2 = .ok ⟨.auto, 7, .infinity false⟩ :=
    Schema.toOption_eq_some_iff.mp (by decide +kernel)
  have hw : IsUsable endless := .inr ⟨_, hload⟩
  obtain ⟨hafter, hedit, -⟩ := edits_keep_usable hw [.set "loader.timeout" "never"]
  exact ⟨hw, hafter, hset, (hedit (.set "output.indent" " +07")).2.2 _ hset⟩

end ApiContract.Settings
