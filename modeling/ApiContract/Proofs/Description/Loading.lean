import ApiContract.Description.Source
import ApiContract.Proofs.Failing
import ApiContract.Proofs.Json.Oversized
import ApiContract.Proofs.Schema.Success
import ApiContract.Proofs.Yaml.Unreadable

/-!
# How loading ends

Loading a description ends in one of three ways: with a mapping, with a failure of the source, or as
a misfit.  Whatever is wrong with the form of a text, or keeps it from being fetched, is a failure
of the source.  A misfit comes from a conversion that gives up: the octets of a file are not UTF-8,
or the text is well formed but holds something that has no value.  In JSON that is a whole number
that is too long, in YAML a scalar that does not fit its tag, a number out of range or a mapping
that is made of itself.
-/

namespace ApiContract.Description

open Host Schema

variable {w : World} {timeout : Binary64} {source : String} {s : SourceText} {v : Value}

/-! ## What conversions give up on -/

/-- A source is a file that is there and named like a description, and its octets are not UTF-8. -/
structure IsUndecodable (w : World) (source : String) : Prop where
  notDash : source ≠ "-"
  notAddress : isAddress source = false
  format : formatOfSuffix? (Path.ofString source).suffix ≠ none
  octets : ∃ octets, w.read? (Path.ofString source) = some octets ∧
    ¬ ByteArray.IsValidUTF8 ⟨octets.toArray⟩

/-- A source text that is not blank, and that the reader of its format gives up on. -/
inductive IsUnconvertible (s : SourceText) : Prop
  | json (hformat : s.format ≠ some .yaml)
      (hread : Json.read s.text.toList = .error .oversizedNumber)
  | yaml (hformat : s.format = some .yaml) (hread : Yaml.read s.text.toList = .error .unreadable)
  | fallback {flaw : Json.Flaw} {position : Nat} (hformat : s.format = none)
      (hjson : Json.read s.text.toList = .error (.malformed flaw position))
      (hread : Yaml.read s.text.toList = .error .unreadable)

/-- A text that a reader gives up on holds a number that is too long, or is unreadable as YAML. -/
theorem IsUnconvertible.cause (hunconvertible : IsUnconvertible s) :
    Json.HasLongNumeral s.text.toList ∨ Yaml.IsUnreadable s.text.toList := by
  cases hunconvertible with
  | json _ hread => exact .inl (Json.hasLongNumeral_of_read hread)
  | yaml _ hread => exact .inr (Yaml.isUnreadable_of_read hread)
  | fallback _ _ hread => exact .inr (Yaml.isUnreadable_of_read hread)

theorem decode?_eq_none_iff {octets : List UInt8} :
    decode? octets = none ↔ ¬ ByteArray.IsValidUTF8 ⟨octets.toArray⟩ := by
  rw [decode?, Option.map_eq_none_iff, String.fromUTF8?]
  split <;> simp_all

/-! ## Fetching a text -/

/-- A failure of the source, or a misfit. -/
inductive IsLoadFault : Fault → Prop
  | source (e : SourceError) : IsLoadFault (.source e)
  | misfit : IsLoadFault .misfit

theorem fileText_eq_misfit_iff :
    fileText w source = .error .misfit ↔
      formatOfSuffix? (Path.ofString source).suffix ≠ none ∧
        ∃ octets, w.read? (Path.ofString source) = some octets ∧
          ¬ ByteArray.IsValidUTF8 ⟨octets.toArray⟩ := by
  unfold fileText
  dsimp only
  cases formatOfSuffix? (Path.ofString source).suffix with
  | none => simp
  | some format =>
      cases w.read? (Path.ofString source) with
      | none => simp
      | some octets =>
          cases hdecoded : decode? octets with
          | none => simpa [hdecoded] using decode?_eq_none_iff.mp hdecoded
          | some text =>
              have hvalid : ¬ ¬ ByteArray.IsValidUTF8 ⟨octets.toArray⟩ := by
                rw [← decode?_eq_none_iff, hdecoded]
                exact nofun
              simpa [hdecoded] using hvalid

theorem failsOnly_fileText (w : World) (source : String) :
    FailsOnly IsLoadFault (fileText w source) := by
  unfold fileText
  dsimp only
  split
  · exact .error (.source _)
  · split
    · exact .error (.source _)
    · split
      · exact .error .misfit
      · exact .ok _

/-- What an address answers is a text or a failure of the source. -/
theorem failsOnly_addressText (w : World) (timeout : Binary64) (url : String) :
    FailsOnly (fun fault => ∃ e, fault = .source e) (addressText w timeout url).outcome := by
  simp only [addressText, Traced.outcome_bind, Traced.outcome_note]
  change FailsOnly _ (Traced.outcome _)
  split
  · exact .error ⟨_, rfl⟩
  · split
    · exact .ok _
    · exact .error ⟨_, rfl⟩

theorem outcome_sourceText_eq_misfit_iff :
    (sourceText w timeout source).outcome = .error .misfit ↔ IsUndecodable w source := by
  unfold sourceText
  by_cases hdash : source = "-"
  · simp only [hdash, beq_self_eq_true, if_true]
    constructor
    · exact nofun
    · exact fun h => absurd rfl h.notDash
  · rw [if_neg (by simpa using hdash)]
    cases haddress : isAddress source with
    | true =>
        constructor
        · intro hfails
          have hanswer := failsOnly_addressText w timeout source
          rw [if_pos rfl] at hfails
          rw [hfails] at hanswer
          obtain ⟨e, he⟩ : ∃ e, Fault.misfit = .source e := by
            cases hanswer
            assumption
          cases he
        · intro h
          exact absurd h.notAddress (by simp [haddress])
    | false =>
        rw [if_neg Bool.false_ne_true, Traced.outcome_lift, fileText_eq_misfit_iff]
        constructor
        · exact fun ⟨hformat, hoctets⟩ => ⟨hdash, haddress, hformat, hoctets⟩
        · exact fun h => ⟨h.format, h.octets⟩

theorem failsOnly_sourceText (w : World) (timeout : Binary64) (source : String) :
    FailsOnly IsLoadFault (sourceText w timeout source).outcome := by
  unfold sourceText
  split
  · exact .ok _
  · split
    · apply (failsOnly_addressText w timeout source).mono
      intro fault hfault
      obtain ⟨e, rfl⟩ := hfault
      exact .source e
    · rw [Traced.outcome_lift]
      exact failsOnly_fileText w source

/-! ## Reading a text -/

theorem readYaml_eq_misfit_iff {refused : SourceError} {text : List Char} :
    readYaml refused text = .error .misfit ↔ Yaml.read text = .error .unreadable := by
  unfold readYaml
  split <;> simp_all

theorem valueOf_eq_misfit_iff :
    valueOf s.format s.origin s.text.toList = .error .misfit ↔ IsUnconvertible s := by
  constructor
  · intro hfails
    unfold valueOf at hfails
    split at hfails
    · exact .yaml ‹_› (readYaml_eq_misfit_iff.mp hfails)
    · split at hfails
      · cases hfails
      · cases hfails
      · exact .json (by simp [*]) ‹_›
    · split at hfails
      · cases hfails
      · exact .fallback ‹_› ‹_› (readYaml_eq_misfit_iff.mp hfails)
      · exact .json (by simp [*]) ‹_›
  · intro hunconvertible
    cases hunconvertible with
    | json hformat hread =>
        unfold valueOf
        split
        · contradiction
        · rw [hread]
        · rw [hread]
    | yaml hformat hread =>
        unfold valueOf
        rw [hformat]
        exact readYaml_eq_misfit_iff.mpr hread
    | fallback hformat hjson hread =>
        unfold valueOf
        rw [hformat, hjson]
        exact readYaml_eq_misfit_iff.mpr hread

theorem ofSourceText_eq_misfit_iff :
    ofSourceText s = .error .misfit ↔
      s.text.toList.all Text.isBlankOrSeparator = false ∧ IsUnconvertible s := by
  unfold ofSourceText
  cases s.text.toList.all Text.isBlankOrSeparator with
  | true => simp
  | false =>
      rw [if_neg Bool.false_ne_true, ofText, bind_eq_error_iff, valueOf_eq_misfit_iff]
      constructor
      · rintro (hunconvertible | ⟨v, -, hfails⟩)
        · exact ⟨rfl, hunconvertible⟩
        · split at hfails <;> cases hfails
      · exact fun h => .inl h.2

theorem failsOnly_valueOf (format : Option Format) (origin : String) (text : List Char) :
    FailsOnly IsLoadFault (valueOf format origin text) := by
  have hyaml : ∀ refused, FailsOnly IsLoadFault (readYaml refused text) := by
    intro refused
    unfold readYaml
    split
    · exact .ok _
    · exact .error (.source _)
    · exact .error .misfit
  unfold valueOf
  split
  · exact hyaml _
  · split
    · exact .ok _
    · exact .error (.source _)
    · exact .error .misfit
  · split
    · exact .ok _
    · exact hyaml _
    · exact .error .misfit

theorem failsOnly_ofSourceText (s : SourceText) : FailsOnly IsLoadFault (ofSourceText s) := by
  unfold ofSourceText
  split
  · exact .error (.source _)
  · apply (failsOnly_valueOf _ _ _).andThen
    intro v
    split
    · exact .ok _
    · exact .error (.source _)

theorem exists_map_of_ofSourceText (hread : ofSourceText s = .ok v) : ∃ es, v = .map es := by
  unfold ofSourceText at hread
  split at hread
  · cases hread
  · obtain ⟨found, -, hread⟩ := bind_eq_ok_iff.mp hread
    split at hread
    · cases hread
      exact ⟨_, rfl⟩
    · cases hread

/-! ## Loading -/

theorem outcome_load (w : World) (timeout : Binary64) (source : String) :
    (load w timeout source).outcome = (sourceText w timeout source).outcome >>= ofSourceText := by
  simp [load]

/-- A file named like a description, with an octet that no text in UTF-8 begins with. -/
def undecodable : World :=
  { files := ⟨[(["work"], .directory), (["work", "a.json"], .file [0xFF])]⟩, cwd := ["work"]
    environment := [], platform := "Linux", replies := [], stdin := "", isTerminal := false
    stamp := "0" }

end ApiContract.Description
