import ApiContract.Description.Source
import ApiContract.Proofs.Json.Laws
import ApiContract.Proofs.Json.Reading

/-!
# Sources in JSON

What a source holds has a JSON text if the source is JSON, and expanding the references of a
description that has one leaves a description that has one.
-/

namespace ApiContract.Description

open Host Schema

variable {w : World} {timeout : Binary64} {source : String} {s : SourceText} {v : Value}

theorem outcome_load_eq_ok_iff :
    (load w timeout source).outcome = .ok v ↔
      ∃ s, (sourceText w timeout source).outcome = .ok s ∧ ofSourceText s = .ok v := by
  simp [load, bind_eq_ok_iff]

theorem valueOf_of_ofText {format : Option Format} {origin : String} {text : List Char}
    (htext : ofText format origin text = .ok v) : valueOf format origin text = .ok v := by
  obtain ⟨read, hread, htext⟩ := bind_eq_ok_iff.mp htext
  rw [hread]
  split at htext
  · exact htext
  · cases htext

/-- A source text that is read as JSON: it is not said to be YAML, and it is well formed. -/
def IsJsonText (s : SourceText) : Prop :=
  s.format ≠ some .yaml ∧ ∃ v, Json.read s.text.toList = .ok v

theorem isJson_of_ofSourceText (hjson : IsJsonText s) (hv : ofSourceText s = .ok v) :
    v.isJson = true := by
  obtain ⟨hformat, read, hread⟩ := hjson
  unfold ofSourceText at hv
  split at hv
  · cases hv
  · have hvalue := valueOf_of_ofText hv
    have hsame : read = v := by
      cases hf : s.format with
      | none => simpa [valueOf, hf, hread] using hvalue
      | some format =>
          cases format with
          | json => simpa [valueOf, hf, hread] using hvalue
          | yaml => exact absurd hf hformat
    exact hsame ▸ Json.isJson_of_read hread

/-- A source of JSON text holds a description with a JSON text. -/
theorem isJson_of_load (hs : (sourceText w timeout source).outcome = .ok s) (hjson : IsJsonText s)
    (hv : (load w timeout source).outcome = .ok v) : v.isJson = true := by
  obtain ⟨found, hfound, hv⟩ := outcome_load_eq_ok_iff.mp hv
  obtain rfl : found = s := Except.ok.inj (hfound.symm.trans hs)
  exact isJson_of_ofSourceText hjson hv

theorem isJson_of_loadInline {document : Value} (hv : (load w timeout source).outcome = .ok v)
    (hdocument : (loadInline w timeout source).outcome = .ok document) (hjson : v.isJson = true) :
    document.isJson = true := by
  simp only [loadInline, Traced.outcome_bind, Traced.outcome_lift, bind_eq_ok_iff] at hdocument
  obtain ⟨read, hread, -, -, hinlined⟩ := hdocument
  obtain rfl : read = v := Except.ok.inj (hread.symm.trans hv)
  exact isJson_of_inline hinlined hjson

end ApiContract.Description
