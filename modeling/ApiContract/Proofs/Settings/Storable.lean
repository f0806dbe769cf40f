import ApiContract.Proofs.Json.ReadBack
import ApiContract.Proofs.Settings.Precedence

/-!
# Settings that can be stored

Whatever settings are made of a JSON text and of texts from the command line, they can be written
and are read back: the indentation has no more digits than can be read, and the timeout is a number
of the format or infinite.
-/

namespace ApiContract.Settings

open Schema (bind_eq_ok_iff)

variable {sections : Entries} {key : SettingKey} {s user : Settings} {v : Value}

/-- Settings whose text is read back. -/
structure IsStorable (s : Settings) : Prop where
  indent : Json.isWritableInt s.indent = true
  representable : s.timeout.IsRepresentable
  positive : s.timeout.isPositive = true

/-! ## Whole numbers from texts -/

/-- No character takes less than a byte. -/
theorem length_le_utf8ByteSize (s : String) : s.toList.length ≤ s.utf8ByteSize := by
  have hsize : s.utf8ByteSize = (s.toList.flatMap String.utf8EncodeChar).length := by
    conv_lhs => rw [← String.ofList_toList (s := s), String.utf8ByteSize, String.toByteArray_ofList]
    exact List.size_toByteArray
  rw [hsize]
  induction s.toList with
  | nil => exact Nat.zero_le _
  | cons c rest ih =>
      have hbytes : 0 < (String.utf8EncodeChar c).length :=
        List.length_pos_iff.mpr String.utf8EncodeChar_ne_nil
      rw [List.flatMap_cons, List.length_append, List.length_cons]
      omega

/-- A whole number in its one form is below the power of ten of the length of its text. -/
theorem natAbs_lt_of_canonicalInt? {cs : List Char} {n : Int} (hn : canonicalInt? cs = some n) :
    n.natAbs < 10 ^ cs.length := by
  unfold canonicalInt? at hn
  split at hn
  rename_i negative digits hsign
  have hlength : digits.length ≤ cs.length := by
    split at hsign
    · cases hsign
      exact Nat.le_succ _
    · cases hsign
      exact Nat.le_refl _
  obtain ⟨-, hdigits⟩ := Option.ite_none_right_eq_some.mp hn
  obtain ⟨_, hsome, hvalue⟩ := Option.map_eq_some_iff.mp hdigits
  obtain ⟨m, hm, hcast⟩ := Option.bind_eq_some_iff.mp hsome
  cases hcast
  have habs : n.natAbs = m := by
    rw [← hvalue]
    split <;> simp
  rw [habs]
  exact (Text.digitsValue?_lt hm).trans_le (Nat.pow_le_pow_right (by decide) hlength)

theorem length_dropZeros_le {previous : Char} {afterGap : Bool} {cs rest : List Char}
    (hdrop : dropZeros previous afterGap cs = some rest) : rest.length ≤ cs.length + 1 := by
  fun_induction dropZeros previous afterGap cs with
  | case1 =>
      cases hdrop
      exact Nat.le_refl _
  | case2 _ _ _ _ _ ih => exact (ih hdrop).trans (Nat.le_succ _)
  | case3 => cases hdrop
  | case4 _ _ _ _ _ _ _ ih => exact (ih hdrop).trans (Nat.le_succ _)
  | case5 =>
      cases hdrop
      exact Nat.le_refl _
  | case6 =>
      cases hdrop
      exact Nat.le_succ _
  | case7 => cases hdrop

theorem length_withoutLeadingZeros?_le {cs rest : List Char}
    (hdrop : withoutLeadingZeros? cs = some rest) : rest.length ≤ cs.length := by
  unfold withoutLeadingZeros? at hdrop
  split at hdrop
  · cases hdrop
  · split at hdrop
    · exact length_dropZeros_le hdrop
    · split at hdrop
      · cases hdrop
        exact Nat.le_refl _
      · cases hdrop

theorem length_trimBoth_le (isTrimmed : Char → Bool) (cs : List Char) :
    (Text.trimBoth isTrimmed cs).length ≤ cs.length := by
  rw [Text.trimBoth, List.length_reverse]
  refine (List.dropWhile_suffix _).length_le.trans ?_
  rw [List.length_reverse]
  exact (List.dropWhile_suffix _).length_le

theorem length_withoutZeroFraction_le (cs : List Char) :
    (withoutZeroFraction cs).length ≤ cs.length := by
  unfold withoutZeroFraction
  dsimp only
  split
  · exact (List.takeWhile_prefix _).length_le
  · exact Nat.le_refl _

theorem length_withoutGaps?_le (cs : List Char) :
    ((withoutGaps? cs).getD cs).length ≤ cs.length := by
  unfold withoutGaps?
  split
  · exact List.length_filter_le _ _
  · exact Nat.le_refl _

/-- To tidy a number makes it no longer. -/
theorem length_tidied?_le {cs tidy : List Char} (htidy : tidied? cs = some tidy) :
    tidy.length ≤ cs.length := by
  -- What is done once the sign is gone.
  have hunsigned {unsigned : List Char} (hle : unsigned.length ≤ (Text.trimBoth Text.isBlank cs).length)
      (hsteps : ((withoutLeadingZeros? unsigned).bind fun plain =>
        some ((withoutGaps? (withoutZeroFraction plain)).getD (withoutZeroFraction plain))) =
          some tidy) : tidy.length ≤ cs.length := by
    obtain ⟨plain, hplain, hlast⟩ := Option.bind_eq_some_iff.mp hsteps
    cases hlast
    exact (length_withoutGaps?_le _).trans <| (length_withoutZeroFraction_le plain).trans <|
      (length_withoutLeadingZeros?_le hplain).trans <| hle.trans (length_trimBoth_le _ cs)
  unfold tidied? at htidy
  dsimp only at htidy
  split at htidy
  · cases htidy
  · rename_i htrim
    refine hunsigned ?_ htidy
    rw [htrim]
    exact Nat.le_succ _
  · exact hunsigned (Nat.le_refl _) htidy

/-- A whole number that is accepted as a text has no more digits than the text has bytes. -/
theorem isWritableInt_of_coerceIntText {text : String} {n : Int}
    (hn : coerceIntText text = .ok n) : Json.isWritableInt n = true := by
  unfold coerceIntText at hn
  split at hn
  · cases hn
  · rename_i hlimit
    have hshort : text.toList.length ≤ Text.digitLimit :=
      (length_le_utf8ByteSize text).trans (not_lt.mp hlimit)
    have hwritable {cs : List Char} (hcs : cs.length ≤ text.toList.length)
        (hvalue : canonicalInt? cs = some n) : Json.isWritableInt n = true :=
      decide_eq_true ((natAbs_lt_of_canonicalInt? hvalue).trans_le
        (Nat.pow_le_pow_right (by decide) (hcs.trans hshort)))
    split at hn
    · cases hn
      exact hwritable (Nat.le_refl _) (by assumption)
    · split at hn
      · rename_i htidied
        cases hn
        obtain ⟨tidy, htidy, hvalue⟩ := Option.bind_eq_some_iff.mp htidied
        exact hwritable (length_tidied?_le htidy) hvalue
      · cases hn

/-! ## Values that are accepted -/

theorem isWritableInt_of_natAbs_lt {n : Int} (bound : Nat) (hn : n.natAbs < bound)
    (hbound : bound ≤ 10 ^ Text.digitLimit) : Json.isWritableInt n = true :=
  decide_eq_true (hn.trans_le hbound)

theorem isWritableInt_of_coerceInt {n : Int} (hv : v.IsPlain) (hn : coerceInt v = .ok n) :
    Json.isWritableInt n = true := by
  cases hv with
  | bool b =>
      cases hn
      refine isWritableInt_of_natAbs_lt 2 ?_ (by decide +kernel)
      cases b <;> decide
  | int hwritable =>
      cases hn
      exact hwritable
  | float =>
      rename_i x hx
      have hfraction : coerceIntFraction x = .ok n := hn
      unfold coerceIntFraction at hfraction
      split at hfraction
      · cases hfraction
      · split at hfraction
        · cases hfraction
        · split at hfraction
          · cases hfraction
            exact isWritableInt_of_natAbs_lt fractionLimit (by assumption) (by decide +kernel)
          · cases hfraction
  | str text => exact isWritableInt_of_coerceIntText hn
  | null => cases hn
  | list => cases hn
  | map => cases hn

theorem isWritableInt_of_coerceIndent {n : Nat} (hv : v.IsPlain) (hn : coerceIndent v = .ok n) :
    Json.isWritableInt n = true := by
  obtain ⟨i, hi, hn⟩ := bind_eq_ok_iff.mp hn
  split at hn
  · cases hn
  · rename_i hpos
    cases hn
    rw [Int.toNat_of_nonneg (not_lt.mp hpos)]
    exact isWritableInt_of_coerceInt hv hi

theorem isRepresentable_ofBool (b : Bool) :
    (if b then Binary64.one else Binary64.zero).IsRepresentable := by
  have hone : Binary64.one = .finite false (1 * Binary64.unitsPerOne) := by
    rw [Nat.one_mul]
    rfl
  split
  · exact hone ▸ Binary64.isRepresentable_whole false (by decide)
  · exact Binary64.isRepresentable_zero false

theorem isRepresentable_thirty : Binary64.thirty.IsRepresentable :=
  Binary64.isRepresentable_whole false (by decide)

theorem isRepresentable_of_number? {cs : List Char} {x : Binary64}
    (hx : Text.number? cs = some x) : x.IsRepresentable := by
  unfold Text.number? at hx
  split at hx
  dsimp only at hx
  split at hx
  · rintro _ _ rfl
    cases hx
  · split at hx
    · rintro _ _ rfl
      cases hx
    · obtain ⟨parts, -, rfl⟩ := Option.map_eq_some_iff.mp hx
      exact Binary64.isRepresentable_ofDecimal _ _ _

theorem isRepresentable_of_coerceNumberText {text : String} {x : Binary64}
    (hx : coerceNumberText text = .ok x) : x.IsRepresentable := by
  unfold coerceNumberText at hx
  split at hx
  · cases hx
    exact isRepresentable_of_number? (by assumption)
  · split at hx
    · rename_i hgapless
      cases hx
      obtain ⟨cs, -, hcs⟩ := Option.bind_eq_some_iff.mp hgapless
      exact isRepresentable_of_number? hcs
    · cases hx

theorem isRepresentable_of_coerceNumber {x : Binary64} (hv : v.IsPlain)
    (hx : coerceNumber v = .ok x) : x.IsRepresentable := by
  cases hv with
  | bool b =>
      cases hx
      exact isRepresentable_ofBool b
  | @int n hn =>
      unfold coerceNumber at hx
      dsimp only at hx
      cases hvalue : Binary64.ofInt? n with
      | none =>
          rw [hvalue] at hx
          cases hx
      | some y =>
          rw [hvalue] at hx
          cases hx
          exact Binary64.isRepresentable_ofInt? hvalue
  | float hfloat =>
      cases hx
      exact hfloat
  | str text => exact isRepresentable_of_coerceNumberText hx
  | null => cases hx
  | list => cases hx
  | map => cases hx

/-- Settings that are made of values that JSON has can be stored. -/
theorem isStorable_of_settles {given : SettingKey → Option Value} (hs : Settles given s)
    (hgiven : ∀ key v, given key = some v → v.IsPlain) : s.IsStorable where
  indent := by
    have hindent := hs.indent
    cases hvalue : given .indent with
    | none =>
        rw [hvalue] at hindent
        rw [← Except.ok.inj hindent]
        exact isWritableInt_of_natAbs_lt 3 (by decide) (by decide +kernel)
    | some v =>
        rw [hvalue] at hindent
        exact isWritableInt_of_coerceIndent (hgiven _ _ hvalue) hindent
  representable := by
    have htimeout := hs.timeout
    cases hvalue : given .timeout with
    | none =>
        rw [hvalue] at htimeout
        rw [← Except.ok.inj htimeout]
        exact isRepresentable_thirty
    | some v =>
        rw [hvalue] at htimeout
        obtain ⟨x, hx, hpositive⟩ := bind_eq_ok_iff.mp htimeout
        split at hpositive
        · cases hpositive
          exact isRepresentable_of_coerceNumber (hgiven _ _ hvalue) hx
        · cases hpositive
  positive := isPositive_timeout hs

end ApiContract.Settings
