import ApiContract.Json.Reader
import ApiContract.Json.Writer
import ApiContract.Proofs.Binary64.Printing

/-!
# Scalars of a JSON text are read back

A number or a string that is written is read back from its text, whatever follows it, as long as
nothing that follows a number could be a part of it.
-/

namespace ApiContract.Json

open Binary64 (DecimalText)

/-- At a text a reader finds something, and stops right behind the text. -/
def Finds {α : Type} (reader : Cursor → Except Fault (Reading α)) (text rest : List Char) (a : α) :
    Prop :=
  ∀ position, ∃ stop, reader ⟨text ++ rest, position⟩ = .ok (a, ⟨rest, stop⟩)

/-! ## Numbers -/

/-- Nothing that a text starts with can go on with a number. -/
def EndsNumber (rest : List Char) : Prop :=
  ∀ c ∈ rest.head?, c.isDigit = false ∧ c ≠ '.' ∧ c ≠ 'e' ∧ c ≠ 'E'

theorem fractionLength_eq_zero {tail : List Char} (hpoint : tail.head? ≠ some '.') :
    fractionLength tail = 0 := by
  unfold fractionLength
  split
  case h_1 => exact absurd rfl hpoint
  case h_2 => rfl

section Numbers

variable {rest : List Char} (hrest : EndsNumber rest)

include hrest

theorem EndsNumber.endsRun : Text.EndsRun rest := fun c hc => (hrest c hc).1

theorem EndsNumber.head?_ne_point : rest.head? ≠ some '.' :=
  fun hpoint => (hrest '.' hpoint).2.1 rfl

theorem EndsNumber.exponentLength : exponentLength rest = 0 := by
  cases rest with
  | nil => rfl
  | cons c rest =>
      obtain ⟨-, -, hlower, hupper⟩ := hrest c rfl
      simp [Json.exponentLength, hlower, hupper]

end Numbers

/-- The sign of a number. -/
def signText (negative : Bool) : List Char := if negative then ['-'] else []

/-- The lengths of the parts of a number at the head of a text. -/
structure Spans (unsigned : List Char) (whole fraction exponent : Nat) : Prop where
  noSign : unsigned.head? ≠ some '-'
  isNumber : whole ≠ 0
  isWhole : wholeLength unsigned = whole
  isFraction : fractionLength (unsigned.drop whole) = fraction
  isExponent : exponentLength (unsigned.drop (whole + fraction)) = exponent

section Spans

variable {text rest : List Char} {whole fraction exponent : Nat} {negative : Bool}

variable (rest negative) in
/-- The cursor behind a number. -/
theorem advance_number (hlength : text.length = whole + fraction + exponent) (position : Nat) :
    ∃ stop, Cursor.advance ⟨signText negative ++ text ++ rest, position⟩
      ((if negative then 1 else 0) + whole + fraction + exponent) = ⟨rest, stop⟩ := by
  have hsigned : (signText negative ++ text).length =
      (if negative then 1 else 0) + whole + fraction + exponent := by
    cases negative
    · simp [signText, hlength]
    · simp [signText, hlength]
      omega
  rw [Cursor.advance, List.drop_left' hsigned]
  exact ⟨_, rfl⟩

/-- A number by the lengths of its parts. -/
theorem readNumber_of_spans (hspans : Spans (text ++ rest) whole fraction exponent)
    (hlength : text.length = whole + fraction + exponent) (position : Nat) :
    readNumber ⟨signText negative ++ text ++ rest, position⟩ =
      if fraction = 0 && exponent = 0 then
        if Text.digitLimit < whole then .error .oversizedNumber
        else .ok (.int (if negative then -((Text.digitsValue? 10 text).getD 0 : Int)
            else (Text.digitsValue? 10 text).getD 0),
          Cursor.advance ⟨signText negative ++ text ++ rest, position⟩
            ((if negative then 1 else 0) + whole + fraction + exponent))
      else
        .ok (.float (.ofDecimal negative ((Text.decimalParts? text).getD (0, 0)).1
            ((Text.decimalParts? text).getD (0, 0)).2),
          Cursor.advance ⟨signText negative ++ text ++ rest, position⟩
            ((if negative then 1 else 0) + whole + fraction + exponent)) := by
  obtain ⟨hhead, hpos, rfl, rfl, rfl⟩ := hspans
  unfold readNumber
  split
  rename_i sign found hsign
  obtain ⟨rfl, rfl⟩ : sign = negative ∧ found = text ++ rest := by
    cases negative with
    | true =>
        cases hsign
        exact ⟨rfl, rfl⟩
    | false =>
        split at hsign
        case h_1 heq =>
          have hminus : text ++ rest = '-' :: _ := heq
          rw [hminus] at hhead
          exact absurd rfl hhead
        case h_2 =>
          cases hsign
          exact ⟨rfl, rfl⟩
  dsimp only
  rw [if_neg hpos, ← hlength, List.take_left' rfl]

/-- Where a number has a point or an exponent, a fraction is found. -/
theorem finds_fraction (hspans : Spans (text ++ rest) whole fraction exponent)
    (hlength : text.length = whole + fraction + exponent) (hmarked : fraction ≠ 0 ∨ exponent ≠ 0)
    {significand : Nat} {power : Int} (hparts : Text.decimalParts? text = some (significand, power)) :
    Finds readNumber (signText negative ++ text) rest
      (.float (.ofDecimal negative significand power)) := by
  intro position
  obtain ⟨stop, hstop⟩ := advance_number rest negative hlength position
  have hfraction : (decide (fraction = 0) && decide (exponent = 0)) = false := by
    simpa [Decidable.imp_iff_not_or] using hmarked
  refine ⟨stop, ?_⟩
  rw [readNumber_of_spans hspans hlength, hstop, hparts, if_neg (by rw [hfraction]; decide)]
  rfl

variable (negative) in
/-- Where it has neither and is not too long, a whole number is found. -/
theorem finds_whole (hspans : Spans (text ++ rest) whole 0 0) (hlength : text.length = whole)
    (hlimit : whole ≤ Text.digitLimit) {n : Nat} (hvalue : Text.digitsValue? 10 text = some n) :
    Finds readNumber (signText negative ++ text) rest (.int (if negative then -(n : Int) else n)) := by
  intro position
  obtain ⟨stop, hstop⟩ := advance_number rest negative
    (show text.length = whole + 0 + 0 from hlength) position
  refine ⟨stop, ?_⟩
  have hplain : (decide (0 = 0) && decide (0 = 0)) = true := rfl
  rw [readNumber_of_spans hspans hlength, hstop, hvalue, if_pos hplain, if_neg (not_lt.mpr hlimit)]
  rfl

end Spans

section Texts

variable {whole tail rest : List Char} (hdigits : ∀ c ∈ whole, c.isDigit = true)
  (hfirst : whole = ['0'] ∨ (whole ≠ [] ∧ whole.head? ≠ some '0'))

include hfirst in
theorem whole_ne_nil : whole ≠ [] := by
  rcases hfirst with hzero | ⟨hne, -⟩
  · simp [hzero]
  · exact hne

include hdigits hfirst

theorem wholeLength_append (htail : Text.EndsRun tail) : wholeLength (whole ++ tail) = whole.length := by
  rcases hfirst with rfl | ⟨hne, hhead⟩
  · rfl
  · obtain ⟨c, rest, rfl⟩ := List.exists_cons_of_ne_nil hne
    unfold wholeLength
    split
    case h_1 heq => exact absurd (congrArg some (List.cons.inj heq).1) hhead
    case h_2 => rw [Text.takeWhile_digits hdigits htail]

theorem head?_digits_ne_minus (tail : List Char) : (whole ++ tail).head? ≠ some '-' := by
  obtain ⟨c, rest, rfl⟩ := List.exists_cons_of_ne_nil (whole_ne_nil hfirst)
  intro hminus
  have hdigit := hdigits c List.mem_cons_self
  rw [Option.some.inj hminus] at hdigit
  cases hdigit

/-- A run of digits is the whole part of a number and nothing else. -/
theorem spans_digits (hrest : EndsNumber rest) : Spans (whole ++ rest) whole.length 0 0 where
  noSign := head?_digits_ne_minus hdigits hfirst rest
  isNumber := List.length_pos_iff.mpr (whole_ne_nil hfirst) |>.ne'
  isWhole := wholeLength_append hdigits hfirst hrest.endsRun
  isFraction := by rw [List.drop_left]; exact fractionLength_eq_zero hrest.head?_ne_point
  isExponent := by rw [Nat.add_zero, List.drop_left]; exact hrest.exponentLength

end Texts

theorem exponentLength_exponentText (e : Option Int) {rest : List Char} (hrest : EndsNumber rest) :
    exponentLength (DecimalText.exponentText e ++ rest) = (DecimalText.exponentText e).length := by
  cases e with
  | none => exact hrest.exponentLength
  | some e =>
      have hdigits : ∀ c ∈ Binary64.padded Binary64.layout.exponentDigits e.natAbs,
          c.isDigit = true := fun _ hc => DecimalText.isDigit_of_mem_padded hc
      have hrun := Text.takeWhile_digits hdigits hrest.endsRun
      have hne := DecimalText.padded_ne_nil Binary64.layout.exponentDigits e.natAbs
      by_cases hneg : e < 0 <;>
        simp [DecimalText.exponentText, exponentLength, hneg, hrun, hne] <;> omega

theorem fractionLength_fractionText {fraction tail : List Char}
    (hdigits : ∀ c ∈ fraction, c.isDigit = true) (htail : Text.EndsRun tail)
    (hpoint : tail.head? ≠ some '.') :
    fractionLength (DecimalText.fractionText fraction ++ tail) =
      (DecimalText.fractionText fraction).length := by
  cases fraction with
  | nil => exact fractionLength_eq_zero hpoint
  | cons c rest =>
      have hrun := Text.takeWhile_digits hdigits htail
      rw [List.cons_append] at hrun
      simp [DecimalText.fractionText, fractionLength, hrun]

/-- The parts of a decimal are the parts of a number. -/
theorem spans_decimal {t : DecimalText} {rest : List Char} (ht : t.IsWellFormed)
    (hrest : EndsNumber rest) :
    Spans (t.text ++ rest) t.whole.length (DecimalText.fractionText t.fraction).length
      (DecimalText.exponentText t.exponent?).length := by
  have hexponent : Text.EndsRun (DecimalText.exponentText t.exponent? ++ rest) ∧
      (DecimalText.exponentText t.exponent? ++ rest).head? ≠ some '.' := by
    cases t.exponent? with
    | none => exact ⟨hrest.endsRun, hrest.head?_ne_point⟩
    | some e => simp [Text.EndsRun, DecimalText.exponentText]
  have htail : Text.EndsRun (DecimalText.fractionText t.fraction ++
      (DecimalText.exponentText t.exponent? ++ rest)) := by
    unfold DecimalText.fractionText
    split
    · exact hexponent.1
    · simp [Text.EndsRun]
  have htext : t.text ++ rest = t.whole ++ (DecimalText.fractionText t.fraction ++
      (DecimalText.exponentText t.exponent? ++ rest)) := by
    simp only [DecimalText.text, List.append_assoc]
  rw [htext]
  refine ⟨head?_digits_ne_minus ht.whole ht.first _, ?_, wholeLength_append ht.whole ht.first htail,
    ?_, ?_⟩
  · exact (List.length_pos_iff.mpr (whole_ne_nil ht.first)).ne'
  · rw [List.drop_left]
    exact fractionLength_fractionText ht.fraction hexponent.1 hexponent.2
  · rw [← List.drop_drop, List.drop_left, List.drop_left]
    exact exponentLength_exponentText t.exponent? hrest

/-- A finite number is read back from its text. -/
theorem finds_finite {negative : Bool} {units : Nat} {rest : List Char}
    (hlimit : units < Binary64.unitLimit) (hexact : Binary64.IsExact units)
    (hrest : EndsNumber rest) :
    Finds readNumber (signText negative ++ Binary64.magnitudeText units) rest
      (.float (.finite negative units)) := by
  obtain ⟨t, ht, htext, hdecimal⟩ := Binary64.exists_text hexact hlimit
  rw [← htext, ← hdecimal negative]
  refine finds_fraction (spans_decimal ht hrest) ?_ ?_ (DecimalText.decimalParts?_text ht)
  · simp only [DecimalText.text, List.length_append, Nat.add_assoc]
  · refine ht.isFraction.imp (fun hne => ?_) fun hsome => ?_
    · simp [DecimalText.fractionText, hne]
    · obtain ⟨e, he⟩ := Option.isSome_iff_exists.mp hsome
      simp [DecimalText.exponentText, he]

/-! ## Whole numbers -/

theorem toList_toString_int (n : Int) :
    (toString n).toList = signText (decide (n < 0)) ++ Nat.toDigits 10 n.natAbs := by
  cases n with
  | ofNat n => exact Text.toList_toString n
  | negSucc n =>
      have htext : toString (Int.negSucc n) = "-" ++ toString (n + 1) := rfl
      rw [htext, String.toList_append, Text.toList_toString,
        decide_eq_true (Int.negSucc_lt_zero n), Int.natAbs_negSucc]
      rfl

/-- A whole number that is not too long is read back from its text. -/
theorem finds_int {n : Int} {rest : List Char} (hn : isWritableInt n = true)
    (hrest : EndsNumber rest) : Finds readNumber (toString n).toList rest (.int n) := by
  rw [isWritableInt, decide_eq_true_eq, Nat.pow_eq] at hn
  have hlength : (Nat.toDigits 10 n.natAbs).length ≤ Text.digitLimit :=
    Text.length_toDigits_le hn
  have hdigits : ∀ c ∈ Nat.toDigits 10 n.natAbs, c.isDigit = true :=
    fun _ hc => Text.isDigit_of_mem_toDigits hc
  have hfirst : Nat.toDigits 10 n.natAbs = ['0'] ∨
      (Nat.toDigits 10 n.natAbs ≠ [] ∧ (Nat.toDigits 10 n.natAbs).head? ≠ some '0') := by
    rcases Nat.eq_zero_or_pos n.natAbs with hzero | hpos
    · rw [hzero]
      exact .inl rfl
    · exact .inr ⟨Nat.toDigits_ne_nil, Text.head?_toDigits_ne hpos⟩
  have hsigned : (if decide (n < 0) then -(n.natAbs : Int) else n.natAbs) = n := by
    by_cases hneg : n < 0
    · rw [if_pos (decide_eq_true hneg), Int.ofNat_natAbs_of_nonpos hneg.le, neg_neg]
    · rw [if_neg (by simpa using hneg), Int.natAbs_of_nonneg (not_lt.mp hneg)]
  have hfound := finds_whole (decide (n < 0)) (spans_digits hdigits hfirst hrest) rfl hlength
    (Text.digitsValue?_toDigits n.natAbs)
  rwa [hsigned, ← toList_toString_int] at hfound

/-! ## Strings -/

/-- A piece that stands for a character, whatever pieces follow. -/
def Piece.Carries (piece : Piece) (c : Char) : Prop :=
  ∀ more, joinPieces (piece :: more) = c :: joinPieces more

theorem carries_char (c : Char) : (Piece.char c).Carries c := fun _ => rfl

/-- A unit below the surrogates stands for a character alone. -/
theorem carries_unit {c : Char} (hc : c.toNat < 0x20) : (Piece.unit c.toNat).Carries c := by
  intro more
  have hhigh : Text.isHighSurrogate c.toNat = false := by
    simp only [Text.isHighSurrogate, Bool.and_eq_false_imp, decide_eq_true_eq]
    omega
  have hunit : Text.ofUnit c.toNat = c := by
    have hplain : ¬((decide (0xD800 ≤ c.toNat) && decide (c.toNat < 0xE000)) = true) := by
      simp only [Bool.and_eq_true, decide_eq_true_eq]
      omega
    rw [Text.ofUnit, if_neg hplain, Char.ofNat_toNat]
  cases more with
  | nil => simp [joinPieces, hunit]
  | cons piece more => cases piece <;> simp [joinPieces, hunit, hhigh]

theorem hexDigits_of_lt {n : Nat} (hn : n < 0x20) :
    Text.hexDigits 4 n = ['0', '0', Nat.digitChar (n / 16), Nat.digitChar (n % 16)] := by
  revert n
  decide

theorem hexValue?_digitChar {d : Nat} (hd : d < 16) : Text.hexValue? (Nat.digitChar d) = some d := by
  revert d
  decide

/-- A character is read back from its escape. -/
theorem readPieces_escapeChar (start : Nat) (c : Char) {rest : List Char} (hrest : rest ≠ []) :
    ∃ piece : Piece, piece.Carries c ∧ ∀ position before, ∃ next,
      readPieces start .plain (escapeChar c ++ rest) position before =
        readPieces start .plain rest next (piece :: before) := by
  -- An escape of one letter.
  have hshort (letter : Char) (hletter : letter ≠ 'u') (hc : shortEscape? letter = some c)
      (hescape : escapeChar c = ['\\', letter]) :
      ∃ piece : Piece, piece.Carries c ∧ ∀ position before, ∃ next,
        readPieces start .plain (escapeChar c ++ rest) position before =
          readPieces start .plain rest next (piece :: before) := by
    refine ⟨.char c, carries_char c, fun position before => ⟨position + 1 + 1, ?_⟩⟩
    simp [hescape, readPieces, hletter, hc]
  by_cases hquote : c = '"'
  · subst hquote; exact hshort '"' (by decide) rfl rfl
  by_cases hbackslash : c = '\\'
  · subst hbackslash; exact hshort '\\' (by decide) rfl rfl
  by_cases hline : c = '\n'
  · subst hline; exact hshort 'n' (by decide) rfl rfl
  by_cases hreturn : c = '\r'
  · subst hreturn; exact hshort 'r' (by decide) rfl rfl
  by_cases htab : c = '\t'
  · subst htab; exact hshort 't' (by decide) rfl rfl
  by_cases hfeed : c = '\x0c'
  · subst hfeed; exact hshort 'f' (by decide) rfl rfl
  by_cases hback : c = '\x08'
  · subst hback; exact hshort 'b' (by decide) rfl rfl
  by_cases hcontrol : c.toNat < 0x20
  · refine ⟨.unit c.toNat, carries_unit hcontrol, fun position before => ⟨position + 6, ?_⟩⟩
    have hescape : escapeChar c = '\\' :: 'u' :: Text.hexDigits 4 c.toNat := by
      simp [escapeChar, hquote, hbackslash, hline, hreturn, htab, hfeed, hback, hcontrol]
    have hhigh := hexValue?_digitChar (d := c.toNat / 16) (by omega)
    have hlow := hexValue?_digitChar (d := c.toNat % 16) (by omega)
    have hzero : Text.hexValue? '0' = some 0 := rfl
    have hcode : 16 * (c.toNat / 16) + c.toNat % 16 = c.toNat := Nat.div_add_mod _ _
    rw [hescape, hexDigits_of_lt hcontrol]
    simp [readPieces, hrest, hzero, hhigh, hlow, hcode]
  · refine ⟨.char c, carries_char c, fun position before => ⟨position + 1, ?_⟩⟩
    simp [escapeChar, readPieces, hquote, hbackslash, hline, hreturn, htab, hfeed, hback, hcontrol]

/-- Pieces that stand for characters are read from their escapes up to the closing quote. -/
theorem readPieces_flatMap (start : Nat) (cs rest : List Char) :
    ∃ pieces, joinPieces pieces = cs ∧ ∀ position before, ∃ stop,
      readPieces start .plain (cs.flatMap escapeChar ++ '"' :: rest) position before =
        .ok (before.reverse ++ pieces, ⟨rest, stop⟩) := by
  induction cs with
  | nil => exact ⟨[], rfl, fun position before => ⟨position + 1, by simp [readPieces]⟩⟩
  | cons c cs ih =>
      obtain ⟨pieces, hpieces, hread⟩ := ih
      obtain ⟨piece, hpiece, hfirst⟩ := readPieces_escapeChar start c
        (show cs.flatMap escapeChar ++ '"' :: rest ≠ [] by simp)
      refine ⟨piece :: pieces, by rw [hpiece, hpieces], fun position before => ?_⟩
      obtain ⟨next, hnext⟩ := hfirst position before
      obtain ⟨stop, hstop⟩ := hread next (piece :: before)
      refine ⟨stop, ?_⟩
      rw [List.flatMap_cons, List.append_assoc, hnext, hstop, List.reverse_cons, List.append_assoc]
      rfl

/-- A string is read back from its text behind the opening quote. -/
theorem finds_string (s : String) (rest : List Char) :
    Finds readString (s.toList.flatMap escapeChar ++ ['"']) rest s := by
  intro position
  obtain ⟨pieces, hpieces, hread⟩ := readPieces_flatMap (position - 1) s.toList rest
  obtain ⟨stop, hstop⟩ := hread position []
  refine ⟨stop, ?_⟩
  simp only [readString, List.append_assoc, List.singleton_append, hstop]
  simp [bind, Except.bind, hpieces]

end ApiContract.Json
