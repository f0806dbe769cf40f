import ApiContract.Proofs.Binary64.Shortest
import ApiContract.Text.Numeral
import Mathlib.Data.List.TakeWhile

/-!
# Printed numbers are read back

A magnitude is printed as a whole part, a fraction and an exponent, of which one of the latter two
may be missing.  The decimal that these parts stand for is the shortest one up to the place of the
point, so it is read as the number that was printed.
-/

namespace ApiContract.Binary64

variable {u n : Nat}

/-! ## The parts of a decimal -/

/-- A decimal as it is written: the digits before the point, those behind it, and the exponent. -/
structure DecimalText where
  whole : List Char
  fraction : List Char
  exponent? : Option Int

namespace DecimalText

/-- The mark, the sign and the digits of an exponent. -/
def exponentText : Option Int → List Char
  | none => []
  | some e => 'e' :: (if e < 0 then '-' else '+') :: padded layout.exponentDigits e.natAbs

/-- The point and what stands behind it. -/
def fractionText (fraction : List Char) : List Char :=
  if fraction.isEmpty then [] else '.' :: fraction

def text (t : DecimalText) : List Char :=
  t.whole ++ (fractionText t.fraction ++ exponentText t.exponent?)

/-- The decimal that is written. -/
def decimal (t : DecimalText) : Decimal :=
  ⟨Nat.ofDigitChars 10 (t.whole ++ t.fraction) 0, t.exponent?.getD 0 - t.fraction.length⟩

/-- What is written is a fraction: it has a point or an exponent.  Only a single zero stands in
front of the whole part. -/
structure IsWellFormed (t : DecimalText) : Prop where
  whole : ∀ c ∈ t.whole, c.isDigit = true
  fraction : ∀ c ∈ t.fraction, c.isDigit = true
  first : t.whole = ['0'] ∨ (t.whole ≠ [] ∧ t.whole.head? ≠ some '0')
  isFraction : t.fraction ≠ [] ∨ t.exponent?.isSome = true

theorem isDigit_of_mem_padded {width n : Nat} {c : Char} (hc : c ∈ padded width n) :
    c.isDigit = true := by
  rcases List.mem_append.mp hc with hzero | hdigit
  · rw [List.eq_of_mem_replicate hzero]
    rfl
  · exact Text.isDigit_of_mem_toDigits hdigit

theorem padded_ne_nil (width n : Nat) : padded width n ≠ [] :=
  List.append_ne_nil_of_right_ne_nil _ Nat.toDigits_ne_nil

theorem ofDigitChars_padded (width n : Nat) : Nat.ofDigitChars 10 (padded width n) 0 = n := by
  rw [padded, Nat.ofDigitChars_append, Nat.ofDigitChars_replicate_zero, Nat.mul_zero,
    Nat.ofDigitChars_ten_toDigits]

theorem digitsValue?_padded (width n : Nat) :
    Text.digitsValue? 10 (padded width n) = some n := by
  rw [Text.digitsValue?_of_digits (fun _ hc => isDigit_of_mem_padded hc) (padded_ne_nil width n),
    ofDigitChars_padded]

/-- An exponent ends a run of digits. -/
theorem endsRun_exponentText (e : Option Int) : Text.EndsRun (exponentText e) := by
  cases e with
  | none => simp [Text.EndsRun, exponentText]
  | some e => simp [Text.EndsRun, exponentText]; 

theorem endsRun_tail (t : DecimalText) :
    Text.EndsRun (fractionText t.fraction ++ exponentText t.exponent?) := by
  unfold fractionText
  split
  · exact endsRun_exponentText t.exponent?
  · simp [Text.EndsRun]

theorem splitSign_sign (e : Int) (digits : List Char) :
    Text.splitSign ((if e < 0 then '-' else '+') :: digits) = (decide (e < 0), digits) := by
  by_cases hneg : e < 0 <;> simp [hneg, Text.splitSign]

/-- The parts of a decimal are read back from its text. -/
theorem decimalParts?_text {t : DecimalText} (ht : t.IsWellFormed) :
    Text.decimalParts? t.text = some (t.decimal.significand, t.decimal.exponent) := by
  have hdigits : ∀ c ∈ t.whole ++ t.fraction, c.isDigit = true :=
    fun c hc => (List.mem_append.mp hc).elim (ht.whole c) (ht.fraction c)
  have hne : t.whole ++ t.fraction ≠ [] := by
    rcases ht.first with hzero | ⟨hne, -⟩
    · simp [hzero]
    · simp [hne]
  have hvalue := Text.digitsValue?_of_digits hdigits hne
  have hsigned (e : Int) : (if e < 0 then -|e| else |e|) = e := by
    split
    case isTrue hneg => rw [abs_of_neg hneg, neg_neg]
    case isFalse hpos => exact abs_of_nonneg (not_lt.mp hpos)
  have htake := Text.takeWhile_digits ht.fraction (endsRun_exponentText t.exponent?)
  have hdrop := Text.dropWhile_digits ht.fraction (endsRun_exponentText t.exponent?)
  unfold Text.decimalParts?
  rw [text, Text.takeWhile_digits ht.whole t.endsRun_tail,
    Text.dropWhile_digits ht.whole t.endsRun_tail]
  obtain ⟨whole, fraction, exponent⟩ := t
  dsimp only at hvalue htake hdrop
  cases fraction with
  | nil =>
      rw [List.append_nil] at hvalue
      cases exponent with
      | none => simp [fractionText, exponentText, decimal, hvalue]
      | some e =>
          simp [fractionText, exponentText, decimal, hvalue, splitSign_sign, digitsValue?_padded,
            hsigned]
  | cons c rest =>
      simp only [fractionText, List.isEmpty_cons, Bool.false_eq_true, if_false, List.cons_append] at htake hdrop ⊢
      simp only [htake, hdrop]
      cases exponent with
      | none => simp [exponentText, decimal, hvalue]
      | some e =>
          simp [exponentText, decimal, hvalue, splitSign_sign, digitsValue?_padded, hsigned]

end DecimalText

/-! ## Significant digits -/

/-- Digits without the zeros at their end. -/
theorem exists_zeros (n : Nat) :
    ∃ zeros, Nat.toDigits 10 n = significantDigits n ++ List.replicate zeros '0' := by
  have hsplit := List.takeWhile_append_dropWhile (p := (· == '0')) (l := (Nat.toDigits 10 n).reverse)
  have hzeros : ∀ c ∈ (Nat.toDigits 10 n).reverse.takeWhile (· == '0'), c = '0' :=
    fun c hc => beq_iff_eq.mp (List.mem_takeWhile_imp (p := (· == '0')) hc)
  have hreversed := congrArg List.reverse hsplit
  rw [List.eq_replicate_of_mem hzeros, List.reverse_append, List.reverse_replicate,
    List.reverse_reverse] at hreversed
  exact ⟨_, hreversed.symm⟩

/-- What the significant digits of a number say of it. -/
structure IsSignificant (digits : List Char) (n : Nat) : Prop where
  digit : ∀ c ∈ digits, c.isDigit = true
  first : digits ≠ [] ∧ digits.head? ≠ some '0'
  value : Nat.ofDigitChars 10 digits 0 * 10 ^ ((Nat.toDigits 10 n).length - digits.length) = n
  length : digits.length ≤ (Nat.toDigits 10 n).length

theorem isSignificant_significantDigits (hpos : 0 < n) : IsSignificant (significantDigits n) n := by
  obtain ⟨zeros, hdigits⟩ := exists_zeros n
  have hvalue : Nat.ofDigitChars 10 (significantDigits n) 0 * 10 ^ zeros = n := by
    have hback := Nat.ofDigitChars_ten_toDigits (n := n)
    rwa [hdigits, Nat.ofDigitChars_append, Nat.ofDigitChars_replicate_zero, Nat.mul_comm] at hback
  have hlength := congrArg List.length hdigits
  rw [List.length_append, List.length_replicate] at hlength
  refine ⟨fun c hc => ?_, ?_, ?_, by omega⟩
  · exact Text.isDigit_of_mem_toDigits (hdigits ▸ List.mem_append_left _ hc)
  · have hne : significantDigits n ≠ [] := by
      intro hnil
      rw [hnil, Nat.ofDigitChars_nil, Nat.zero_mul] at hvalue
      omega
    refine ⟨hne, ?_⟩
    have hfirst := Text.head?_toDigits_ne hpos
    obtain ⟨c, rest, hcons⟩ := List.exists_cons_of_ne_nil hne
    rw [hdigits, hcons] at hfirst
    rw [hcons]
    exact hfirst
  · rw [hlength, Nat.add_sub_cancel_left]
    exact hvalue

/-! ## Positional and exponential texts -/

/-- A text of digits whose first one stands for `10 ^ lead`. -/
structure DecimalText.Writes (t : DecimalText) (digits : List Char) (lead : Int) : Prop where
  wellFormed : t.IsWellFormed
  value : t.decimal.value =
    Nat.ofDigitChars 10 digits 0 * (10 : ℚ) ^ (lead + 1 - digits.length)
  significand : t.decimal.significand ≤ max (Nat.ofDigitChars 10 digits 0) (10 ^ 17)

section Texts

variable {digits : List Char} {lead : Int} (hdigits : ∀ c ∈ digits, c.isDigit = true)
  (hfirst : digits ≠ [] ∧ digits.head? ≠ some '0')

include hdigits in
/-- Below one there are zeros behind the point. -/
theorem writes_small (zeros : Nat) (hne : digits ≠ []) :
    DecimalText.Writes ⟨['0'], List.replicate zeros '0' ++ digits, none⟩ digits
      (Int.negSucc zeros) := by
  have hsignificand : Nat.ofDigitChars 10 (['0'] ++ (List.replicate zeros '0' ++ digits)) 0 =
      Nat.ofDigitChars 10 digits 0 := by
    rw [← List.append_assoc, Nat.ofDigitChars_append, ← List.replicate_one,
      List.replicate_append_replicate, Nat.ofDigitChars_replicate_zero, Nat.mul_zero]
  refine ⟨⟨?_, ?_, .inl rfl, .inl ?_⟩, ?_, ?_⟩
  · simp
  · intro c hc
    rcases List.mem_append.mp hc with hzero | hdigit
    · rw [List.eq_of_mem_replicate hzero]
      rfl
    · exact hdigits c hdigit
  · simp [hne]
  · rw [Decimal.value, DecimalText.decimal, hsignificand]
    congr 2
    simp [Int.negSucc_eq]
    ring
  · rw [DecimalText.decimal, hsignificand]
    exact le_max_left _ _

include hdigits hfirst

/-- Digits in front of the point are filled up with zeros. -/
theorem writes_whole {e : Nat} (he : e < 16) (hlength : digits.length ≤ e + 1) :
    DecimalText.Writes ⟨digits ++ List.replicate (e + 1 - digits.length) '0', ['0'], none⟩ digits
      e := by
  have hsignificand : Nat.ofDigitChars 10
      (digits ++ List.replicate (e + 1 - digits.length) '0' ++ ['0']) 0 =
      Nat.ofDigitChars 10 digits 0 * 10 ^ (e + 2 - digits.length) := by
    rw [List.append_assoc, ← List.replicate_one, List.replicate_append_replicate,
      Nat.ofDigitChars_append, Nat.ofDigitChars_replicate_zero, Nat.mul_comm,
      show e + 1 - digits.length + 1 = e + 2 - digits.length by omega]
  refine ⟨⟨?_, ?_, .inr ⟨?_, ?_⟩, .inl ?_⟩, ?_, ?_⟩
  · intro c hc
    rcases List.mem_append.mp hc with hdigit | hzero
    · exact hdigits c hdigit
    · rw [List.eq_of_mem_replicate hzero]
      rfl
  · simp
  · simp [hfirst.1]
  · obtain ⟨c, rest, rfl⟩ := List.exists_cons_of_ne_nil hfirst.1
    exact hfirst.2
  · simp
  · rw [Decimal.value, DecimalText.decimal, hsignificand]
    have hpower : (e : Int) + 1 - digits.length = ((e + 2 - digits.length : Nat) : Int) + -1 := by
      omega
    rw [hpower, zpow_add₀ (by norm_num), zpow_natCast]
    push_cast
    simp [mul_assoc]
  · have hlt := Text.digitsValue?_lt (Text.digitsValue?_of_digits hdigits hfirst.1)
    refine le_max_of_le_right ?_
    rw [DecimalText.decimal, hsignificand]
    calc Nat.ofDigitChars 10 digits 0 * 10 ^ (e + 2 - digits.length)
        ≤ 10 ^ digits.length * 10 ^ (e + 2 - digits.length) := Nat.mul_le_mul_right _ hlt.le
      _ = 10 ^ (e + 2) := by
          rw [← pow_add]
          congr 1
          omega
      _ ≤ 10 ^ 17 := Nat.pow_le_pow_right (by decide) (by omega)

/-- Or they are cut by the point. -/
theorem writes_split {e : Nat} (hlength : e + 1 < digits.length) :
    DecimalText.Writes ⟨digits.take (e + 1), digits.drop (e + 1), none⟩ digits e := by
  have hsignificand : Nat.ofDigitChars 10 (digits.take (e + 1) ++ digits.drop (e + 1)) 0 =
      Nat.ofDigitChars 10 digits 0 := by rw [List.take_append_drop]
  refine ⟨⟨?_, ?_, .inr ⟨?_, ?_⟩, .inl ?_⟩, ?_, ?_⟩
  · exact fun c hc => hdigits c (List.mem_of_mem_take hc)
  · exact fun c hc => hdigits c (List.mem_of_mem_drop hc)
  · simp [hfirst.1]
  · obtain ⟨c, rest, rfl⟩ := List.exists_cons_of_ne_nil hfirst.1
    exact hfirst.2
  · simp
    omega
  · rw [Decimal.value, DecimalText.decimal, hsignificand]
    congr 2
    simp only [Option.getD_none, List.length_drop]
    omega
  · rw [DecimalText.decimal, hsignificand]
    exact le_max_left _ _

theorem exists_positional (hlead : lead < 16) :
    ∃ t : DecimalText, t.text = positional digits lead ∧ t.Writes digits lead := by
  cases lead with
  | negSucc zeros =>
      refine ⟨_, ?_, writes_small hdigits zeros hfirst.1⟩
      simp [DecimalText.text, DecimalText.fractionText, DecimalText.exponentText, positional,
        hfirst.1]
  | ofNat e =>
      by_cases hlength : digits.length ≤ e + 1
      · refine ⟨_, ?_, writes_whole hdigits hfirst (Int.ofNat_lt.mp hlead) hlength⟩
        simp [DecimalText.text, DecimalText.fractionText, DecimalText.exponentText, positional,
          List.take_of_length_le hlength, List.drop_of_length_le hlength]
      · refine ⟨_, ?_, writes_split hdigits hfirst (not_le.mp hlength)⟩
        have hfilled : e + 1 - (digits.take (e + 1)).length = 0 := by
          rw [List.length_take]
          omega
        have hfraction : (digits.drop (e + 1)).isEmpty = false := by
          simp
          omega
        simp only [DecimalText.text, DecimalText.fractionText, DecimalText.exponentText, positional,
          hfilled, hfraction, Bool.false_eq_true, if_false, List.append_nil, List.replicate_zero]

theorem exists_exponential (lead : Int) :
    ∃ t : DecimalText, t.text = exponential digits lead ∧ t.Writes digits lead := by
  obtain ⟨first, rest, rfl⟩ := List.exists_cons_of_ne_nil hfirst.1
  obtain ⟨hdigit, hrest⟩ := List.forall_mem_cons.mp hdigits
  refine ⟨⟨[first], rest, some lead⟩, ?_, ⟨?_, hrest, .inr ⟨by simp, ?_⟩, .inr rfl⟩, ?_, ?_⟩
  · cases rest <;>
      simp [DecimalText.text, DecimalText.fractionText, DecimalText.exponentText, exponential]
  · simpa using hdigit
  · simpa using hfirst.2
  · rw [Decimal.value, DecimalText.decimal]
    congr 2
    simp
  · exact le_max_left _ _

end Texts

/-! ## Reading back -/

/-- The text of a magnitude is well formed, and the decimal that it stands for is read as the
magnitude. -/
theorem exists_text (hexact : IsExact u) (hlimit : u < unitLimit) :
    ∃ t : DecimalText, t.IsWellFormed ∧ t.text = magnitudeText u ∧ ∀ negative,
      ofDecimal negative t.decimal.significand t.decimal.exponent = .finite negative u := by
  by_cases hzero : u = 0
  · subst hzero
    refine ⟨⟨['0'], ['0'], none⟩, ⟨by simp, by simp, .inl rfl, .inl (by simp)⟩, ?_, fun _ => rfl⟩
    rfl
  obtain ⟨hholds, hsmall⟩ := shortest_spec hexact hzero
  have hpos : 0 < (shortest u).significand :=
    Nat.pos_of_ne_zero (significand_ne_zero hexact hzero hlimit hholds)
  have hdigits := isSignificant_significantDigits hpos
  set lead : Int := (Nat.toDigits 10 (shortest u).significand).length - 1 + (shortest u).exponent
    with hlead
  set digits := significantDigits (shortest u).significand
  obtain ⟨t, htext, hwrites⟩ : ∃ t : DecimalText, t.text = magnitudeText u ∧
      t.Writes digits lead := by
    rw [magnitudeText, if_neg hzero]
    dsimp only
    split
    case isTrue hrange => exact exists_positional hdigits.digit hdigits.first hrange.2
    case isFalse => exact exists_exponential hdigits.digit hdigits.first lead
  have hvalue : t.decimal.value = (shortest u).value := by
    have hpower : lead + 1 - digits.length =
        ((Nat.toDigits 10 (shortest u).significand).length - digits.length : Nat) +
          (shortest u).exponent := by
      rw [Nat.cast_sub hdigits.length, hlead]
      ring
    rw [hwrites.value, Decimal.value, hpower, zpow_add₀ (by norm_num), zpow_natCast, ← mul_assoc]
    congr 1
    exact_mod_cast hdigits.value
  refine ⟨t, hwrites.wellFormed, htext, fun negative => ?_⟩
  refine ofDecimal_of_holds hexact hzero hlimit ?_ ?_
  · have hfewer : Nat.ofDigitChars 10 digits 0 ≤ (shortest u).significand := by
      conv_rhs => rw [← hdigits.value]
      exact Nat.le_mul_of_pos_right _ (ten_pow_pos _)
    exact (hwrites.significand.trans (max_le (hfewer.trans hsmall) (Nat.le_refl _))).trans_lt
      (by decide)
  · rw [← hholds]
    exact (basin u).holds_congr hvalue

end ApiContract.Binary64
