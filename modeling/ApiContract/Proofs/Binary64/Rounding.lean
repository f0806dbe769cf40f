import ApiContract.Binary64.Shortest
import Mathlib.Tactic.Ring
import Mathlib.Tactic.Linarith

/-!
# Rounding to the numbers of the format

A count of units is *exact* if it is a multiple of the spacing around it, and only then does the
format hold it.  Whatever is rounded becomes exact.  An exact count has a basin, and every magnitude
in the basin is rounded to it: `ofUnits_of_has`.
-/

namespace ApiContract.Binary64

variable {n k u num den : Nat}

/-! ## Binary digits -/

theorem bitLength_le_iff : bitLength n ≤ k ↔ n < 2 ^ k := by
  unfold bitLength
  split
  case isTrue hzero =>
    subst hzero
    simp
  case isFalse hne => rw [Nat.succ_le_iff, Nat.log2_lt hne]

theorem lt_two_pow_bitLength (n : Nat) : n < 2 ^ bitLength n := bitLength_le_iff.mp le_rfl

/-- The digits of a number between two powers of two that follow each other. -/
theorem bitLength_eq (hlow : 2 ^ k ≤ n) (hhigh : n < 2 ^ (k + 1)) : bitLength n = k + 1 := by
  refine le_antisymm (bitLength_le_iff.mpr hhigh) (Nat.succ_le_of_lt (not_le.mp fun hle => ?_))
  exact absurd (bitLength_le_iff.mp hle) (not_lt.mpr hlow)

theorem two_pow_le_of_lt_bitLength (hlt : k < bitLength n) : 2 ^ k ≤ n :=
  not_lt.mp fun h => absurd (bitLength_le_iff.mpr h) (not_le.mpr hlt)

theorem spacing_eq (u : Nat) : spacing u = 2 ^ (bitLength u - 53) := rfl

theorem spacing_pos (u : Nat) : 0 < spacing u := Nat.two_pow_pos _

/-- No magnitude has more than `2 ^ 53` spacings. -/
theorem lt_spacing_mul (u : Nat) : u < 2 ^ 53 * spacing u := by
  rw [spacing_eq, ← pow_add]
  exact bitLength_le_iff.mp (by omega)

/-! ## Exact counts -/

/-- A count of units that the format holds. -/
def IsExact (u : Nat) : Prop := spacing u ∣ u

/-- A number that the format holds. -/
def IsRepresentable (x : Binary64) : Prop :=
  ∀ negative u, x = .finite negative u → u < unitLimit ∧ IsExact u

theorem isExact_mul_two_pow (hn : n ≤ 2 ^ 53) (k : Nat) : IsExact (n * 2 ^ k) := by
  rw [IsExact, spacing_eq]
  rcases hn.lt_or_eq with hlt | rfl
  · have hlength : bitLength (n * 2 ^ k) ≤ 53 + k := by
      rw [bitLength_le_iff, pow_add]
      exact Nat.mul_lt_mul_of_pos_right hlt (Nat.two_pow_pos k)
    exact (Nat.pow_dvd_pow 2 (by omega)).trans (Dvd.intro_left n rfl)
  · rw [← pow_add]
    have hlength : bitLength (2 ^ (53 + k)) = 53 + k + 1 :=
      bitLength_eq le_rfl (Nat.pow_lt_pow_right (by decide) (by omega))
    exact Nat.pow_dvd_pow 2 (by omega)

/-! ## Quotients -/

theorem roundQuotient_le (num den : Nat) : roundQuotient num den ≤ num / den + 1 := by
  unfold roundQuotient
  dsimp only
  split
  · omega
  · split
    · omega
    · split <;> omega

/-- A quotient that is no further than a half from a number is rounded to it, at a distance of a
half only if the number is even. -/
theorem roundQuotient_eq (hden : 0 < den) (hlow : 2 * (n * den) ≤ 2 * num + den)
    (hhigh : 2 * num ≤ 2 * (n * den) + den)
    (hodd : n % 2 = 1 → 2 * (n * den) < 2 * num + den ∧ 2 * num < 2 * (n * den) + den) :
    roundQuotient num den = n := by
  have hdiv := Nat.div_add_mod' num den
  have hmod := Nat.mod_lt num hden
  unfold roundQuotient
  dsimp only
  generalize num / den = q at *
  generalize num % den = r at *
  -- The whole quotient is the number itself or the one before.
  have hq : q = n ∨ q + 1 = n := by
    have hbelow : q < n + 1 := by
      refine Nat.lt_of_mul_lt_mul_right (a := den) ?_
      rw [Nat.succ_mul]
      omega
    have habove : n < q + 2 := by
      refine Nat.lt_of_mul_lt_mul_right (a := den) ?_
      rw [Nat.add_mul]
      omega
    omega
  rcases hq with rfl | rfl
  · split
    · rfl
    · split
      · omega
      · split <;> omega
  · have hnext : (q + 1) * den = q * den + den := Nat.succ_mul q den
    split
    · omega
    · split
      · rfl
      · split <;> omega

/-! ## What is rounded is exact -/

theorem isRepresentable_ofUnits (negative : Bool) (num den : Nat) :
    (ofUnits negative num den).IsRepresentable := by
  unfold ofUnits IsRepresentable
  generalize unitLimit = limit
  intro sign units hrounded
  dsimp only at hrounded
  split at hrounded
  case isFalse => cases hrounded
  case isTrue hlt =>
    cases hrounded
    refine ⟨hlt, ?_⟩
    rw [spacing_eq]
    refine isExact_mul_two_pow ((roundQuotient_le _ _).trans ?_) _
    rw [← Nat.div_div_eq_div_mul, ← spacing_eq]
    have hfew := (Nat.div_lt_iff_lt_mul (spacing_pos (num / den))).mpr (lt_spacing_mul (num / den))
    omega

theorem isRepresentable_infinity (negative : Bool) : (infinity negative).IsRepresentable := nofun

/-- Small whole numbers are exact. -/
theorem isRepresentable_whole (negative : Bool) (hn : n < 2 ^ 53) :
    (finite negative (n * unitsPerOne)).IsRepresentable := by
  have hone : 0 < unitsPerOne ∧ 2 ^ 53 * unitsPerOne ≤ unitLimit := by decide +kernel
  have hpower : ∃ k, unitsPerOne = 2 ^ k := ⟨1074, by decide +kernel⟩
  unfold IsRepresentable
  generalize unitLimit = limit at *
  generalize unitsPerOne = one at *
  rintro sign u ⟨⟩
  refine ⟨(Nat.mul_lt_mul_of_pos_right hn hone.1).trans_le hone.2, ?_⟩
  obtain ⟨k, rfl⟩ := hpower
  exact isExact_mul_two_pow hn.le k

theorem isRepresentable_zero (negative : Bool) : (finite negative 0).IsRepresentable := by
  simpa only [Nat.zero_mul] using isRepresentable_whole negative (n := 0) (by decide)

theorem isRepresentable_ofDecimal (negative : Bool) (significand : Nat) (exponent : Int) :
    (ofDecimal negative significand exponent).IsRepresentable := by
  unfold ofDecimal
  split
  · exact isRepresentable_zero negative
  · dsimp only
    split
    · exact isRepresentable_infinity negative
    · split
      · exact isRepresentable_zero negative
      · split <;> exact isRepresentable_ofUnits _ _ _

theorem isRepresentable_ofInt? {i : Int} {x : Binary64} (hx : ofInt? i = some x) :
    x.IsRepresentable := by
  have hrounded := isRepresentable_ofUnits (decide (i < 0)) (i.natAbs * unitsPerOne) 1
  rw [ofInt?] at hx
  generalize ofUnits (decide (i < 0)) (i.natAbs * unitsPerOne) 1 = rounded at *
  cases rounded with
  | infinity negative => cases hx
  | _ =>
      cases hx
      exact hrounded

/-! ## Basins -/

/-- A fraction of units lies in a basin. -/
def Basin.Has (b : Basin) (num den : Nat) : Prop :=
  if b.closed then b.low * den ≤ 4 * num ∧ 4 * num ≤ b.high * den
  else b.low * den < 4 * num ∧ 4 * num < b.high * den

/-- An exact count is a significand and a power of two.  Unless the power is one the significand has
all its digits. -/
theorem exists_significand (hexact : IsExact u) :
    ∃ m k, u = m * 2 ^ k ∧ spacing u = 2 ^ k ∧ m < 2 ^ 53 ∧ (0 < k → 2 ^ 52 ≤ m) := by
  obtain ⟨m, hm⟩ := hexact
  refine ⟨m, bitLength u - 53, by rw [mul_comm]; exact hm, rfl, ?_, fun hpos => ?_⟩
  · have hlt := lt_spacing_mul u
    refine Nat.lt_of_mul_lt_mul_left (a := spacing u) ?_
    rwa [← hm, mul_comm]
  · have hlow : 2 ^ (52 + (bitLength u - 53)) ≤ u := two_pow_le_of_lt_bitLength (by omega)
    rw [pow_add, mul_comm] at hlow
    refine Nat.le_of_mul_le_mul_left (c := spacing u) ?_ (spacing_pos u)
    rwa [← hm]

/-- How far the basin of a significand and a power of two reaches down, in quarters of the
spacing. -/
def reach (m k : Nat) : Nat := if 0 < k ∧ m = 2 ^ 52 then 1 else 2

section Basin

variable {m : Nat} (hspacing : spacing (m * 2 ^ k) = 2 ^ k)

include hspacing

theorem basin_eq :
    basin (m * 2 ^ k) =
      ⟨(4 * m - reach m k) * 2 ^ k, (4 * m + 2) * 2 ^ k, m % 2 == 0⟩ := by
  have hpos := Nat.two_pow_pos k
  have hsignificand : m * 2 ^ k / 2 ^ k = m := Nat.mul_div_cancel m hpos
  have hnarrow : (decide (1 < 2 ^ k) && m * 2 ^ k == Nat.pow 2 (precision - 1) * 2 ^ k) =
      decide (0 < k ∧ m = 2 ^ 52) := by
    rw [Bool.eq_iff_iff]
    simp only [Bool.and_eq_true, decide_eq_true_eq, beq_iff_eq, Nat.one_lt_two_pow_iff,
      Nat.pos_iff_ne_zero, Nat.mul_right_cancel_iff hpos]
    exact Iff.rfl
  simp only [basin, hspacing, hsignificand, hnarrow, decide_eq_true_eq, reach, Basin.mk.injEq,
    and_true]
  constructor
  · split <;> rw [Nat.sub_mul] <;> ring_nf
  · ring

/-- What lies in a basin, in spacings instead of units. -/
theorem bounds_of_has (hhas : (basin (m * 2 ^ k)).Has num den) :
    (4 * m - reach m k) * (den * 2 ^ k) ≤ 4 * num ∧ 4 * num ≤ (4 * m + 2) * (den * 2 ^ k) ∧
      (m % 2 = 1 → (4 * m - reach m k) * (den * 2 ^ k) < 4 * num ∧
        4 * num < (4 * m + 2) * (den * 2 ^ k)) := by
  have hmul (n : Nat) : n * 2 ^ k * den = n * (den * 2 ^ k) := by ring
  rw [basin_eq hspacing] at hhas
  simp only [Basin.Has, hmul] at hhas
  split at hhas
  case isTrue heven =>
    refine ⟨hhas.1, hhas.2, fun hodd => ?_⟩
    rw [beq_iff_eq] at heven
    omega
  case isFalse => exact ⟨hhas.1.le, hhas.2.le, fun _ => hhas⟩

omit hspacing

theorem ofUnits_eq_finite {step : Nat} {negative : Bool} (hstep : spacing (num / den) = step)
    (hrounded : roundQuotient num (den * step) * step = u) (hlimit : u < unitLimit) :
    ofUnits negative num den = .finite negative u := by
  unfold ofUnits
  dsimp only
  rw [hstep, hrounded, if_pos hlimit]

/-- The spacing around a fraction whose quotient by a power of two has all the digits of a
significand, or around one that is small. -/
theorem spacing_div_eq (hden : 0 < den) (hlow : 0 < k → 2 ^ 52 * (den * 2 ^ k) ≤ num)
    (hhigh : num < 2 ^ 53 * (den * 2 ^ k)) : spacing (num / den) = 2 ^ k := by
  have hlimit : num / den < 2 ^ (53 + k) := by
    rw [Nat.div_lt_iff_lt_mul hden, pow_add]
    linarith
  rw [spacing_eq]
  rcases Nat.eq_zero_or_pos k with rfl | hpos
  · rw [Nat.sub_eq_zero_of_le (bitLength_le_iff.mpr hlimit)]
  · have hlarge : 2 ^ (52 + k) ≤ num / den := by
      rw [Nat.le_div_iff_mul_le hden, pow_add]
      linarith [hlow hpos]
    have hlength : bitLength (num / den) = 52 + k + 1 :=
      bitLength_eq hlarge (by rwa [show 52 + k + 1 = 53 + k by omega])
    rw [hlength, show 52 + k + 1 - 53 = k by omega]

/-- Below a power of two the spacing is halved, and so is the reach of its basin. -/
theorem ofUnits_of_below {negative : Bool} {j : Nat} (hden : 0 < den)
    (hlimit : 2 ^ 52 * 2 ^ (j + 1) < unitLimit) (hbelow : num < 2 ^ 52 * (den * 2 ^ (j + 1)))
    (hreach : 4 * (2 ^ 52 * (den * 2 ^ (j + 1))) ≤ 4 * num + den * 2 ^ (j + 1)) :
    ofUnits negative num den = .finite negative (2 ^ 52 * 2 ^ (j + 1)) := by
  have hhalf : den * 2 ^ (j + 1) = 2 * (den * 2 ^ j) := by ring
  have hpos : 0 < den * 2 ^ j := Nat.mul_pos hden (Nat.two_pow_pos j)
  rw [hhalf] at hbelow hreach
  have hspacing : spacing (num / den) = 2 ^ j :=
    spacing_div_eq hden (fun _ => by omega) (by omega)
  have hrounded : roundQuotient num (den * 2 ^ j) = 2 ^ 53 :=
    roundQuotient_eq hpos (by omega) (by omega) (by omega)
  refine ofUnits_eq_finite hspacing ?_ hlimit
  rw [hrounded]
  ring

/-- Every magnitude in the basin of an exact count is rounded to it. -/
theorem ofUnits_of_has {negative : Bool} (hden : 0 < den) (hexact : IsExact u) (hne : u ≠ 0)
    (hlimit : u < unitLimit) (hhas : (basin u).Has num den) :
    ofUnits negative num den = .finite negative u := by
  obtain ⟨m, k, rfl, hspacing, hm, hlarge⟩ := exists_significand hexact
  have hmpos : 0 < m := Nat.pos_of_mul_pos_right (Nat.pos_of_ne_zero hne)
  have hstep := Nat.two_pow_pos k
  have hD : 0 < den * 2 ^ k := Nat.mul_pos hden hstep
  obtain ⟨hlow, hhigh, hodd⟩ := bounds_of_has hspacing hhas
  have hexpand : (4 * m - reach m k) * (den * 2 ^ k) =
      4 * (m * (den * 2 ^ k)) - reach m k * (den * 2 ^ k) := by
    rw [Nat.sub_mul, Nat.mul_assoc]
  have hexpand' : (4 * m + 2) * (den * 2 ^ k) =
      4 * (m * (den * 2 ^ k)) + 2 * (den * 2 ^ k) := by ring
  rw [hexpand, hexpand'] at hodd
  rw [hexpand] at hlow
  rw [hexpand'] at hhigh
  by_cases hnarrow : 0 < k ∧ m = 2 ^ 52
  · obtain ⟨hpos, rfl⟩ := hnarrow
    rw [reach, if_pos ⟨hpos, rfl⟩] at hlow
    obtain ⟨j, rfl⟩ : ∃ j, k = j + 1 := ⟨k - 1, by omega⟩
    by_cases hbelow : num < 2 ^ 52 * (den * 2 ^ (j + 1))
    · exact ofUnits_of_below hden hlimit hbelow (by omega)
    · have hrounded : roundQuotient num (den * 2 ^ (j + 1)) = 2 ^ 52 :=
        roundQuotient_eq hD (by omega) (by omega) (by omega)
      refine ofUnits_eq_finite (spacing_div_eq hden (fun _ => ?_) ?_) (by rw [hrounded]) hlimit
      · omega
      · omega
  · rw [reach, if_neg hnarrow] at hlow hodd
    have hrounded : roundQuotient num (den * 2 ^ k) = m :=
      roundQuotient_eq hD (by omega) (by omega) (by omega)
    have hbelow : (m + 1) * (den * 2 ^ k) ≤ 2 ^ 53 * (den * 2 ^ k) :=
      Nat.mul_le_mul_right _ hm
    rw [Nat.add_mul] at hbelow
    refine ofUnits_eq_finite (spacing_div_eq hden (fun hpos => ?_) ?_) (by rw [hrounded]) hlimit
    · have habove : (2 ^ 52 + 1) * (den * 2 ^ k) ≤ m * (den * 2 ^ k) :=
        Nat.mul_le_mul_right _ (by have := hlarge hpos; omega)
      omega
    · omega

end Basin

/-! ## Decimals -/

/-- The units of a decimal are a fraction. -/
def Decimal.numerator (d : Decimal) : Nat :=
  d.significand * (powerOfTen d.exponent).1 * unitsPerOne

def Decimal.denominator (d : Decimal) : Nat := (powerOfTen d.exponent).2

theorem denominator_pos (d : Decimal) : 0 < d.denominator := by
  unfold Decimal.denominator
  cases d.exponent with
  | ofNat e => exact Nat.one_pos
  | negSucc e => exact Nat.pow_pos (by decide)

theorem holds_iff (b : Basin) (d : Decimal) :
    b.holds d = true ↔ b.Has d.numerator d.denominator := by
  unfold Basin.holds Basin.Has Decimal.numerator Decimal.denominator
  generalize unitsPerOne = one
  simp only [Nat.mul_assoc]
  split <;> simp

/-- Decimal digits as `ofDecimal` estimates them. -/
def digitEstimate (significand : Nat) : Nat := bitLength significand * 30103 / 100000

/-- The estimate is right for all significands that are printed. -/
theorem digitEstimate_bounds {significand : Nat} (hsmall : significand < 2 ^ 64)
    (hne : significand ≠ 0) :
    10 ^ digitEstimate significand ≤ 2 * significand ∧
      significand < 10 ^ (digitEstimate significand + 1) := by
  have hlength : bitLength significand ≤ 64 := bitLength_le_iff.mpr hsmall
  have hestimates : ∀ b < 65, 10 ^ (b * 30103 / 100000) ≤ 2 ^ b ∧
      2 ^ b ≤ 10 ^ (b * 30103 / 100000 + 1) := by decide +kernel
  obtain ⟨hlow, hhigh⟩ := hestimates _ (Nat.lt_succ_of_le hlength)
  have hpos : 0 < bitLength significand := by
    by_contra hzero
    exact hne (by simpa using bitLength_le_iff.mp (Nat.le_of_not_lt hzero))
  have hleast : 2 ^ (bitLength significand - 1) ≤ significand :=
    two_pow_le_of_lt_bitLength (by omega)
  refine ⟨hlow.trans ?_, (lt_two_pow_bitLength significand).trans_le hhigh⟩
  calc 2 ^ bitLength significand = 2 * 2 ^ (bitLength significand - 1) := by
        rw [← pow_succ', Nat.sub_add_cancel hpos]
    _ ≤ 2 * significand := Nat.mul_le_mul_left 2 hleast

theorem ofDecimal_eq_ofUnits {negative : Bool} {d : Decimal} (hne : d.significand ≠ 0)
    (hlow : -330 ≤ (digitEstimate d.significand : Int) + d.exponent)
    (hhigh : (digitEstimate d.significand : Int) + d.exponent ≤ 310) :
    ofDecimal negative d.significand d.exponent =
      ofUnits negative d.numerator d.denominator := by
  have hestimate : (bitLength d.significand : Int) * 30103 / 100000 =
      digitEstimate d.significand := by
    simp [digitEstimate]
  unfold ofDecimal
  rw [if_neg hne]
  simp only [hestimate]
  rw [if_neg (by omega), if_neg (by omega)]
  obtain ⟨significand, exponent⟩ := d
  cases exponent with
  | ofNat e => rfl
  | negSucc e => simp only [Decimal.numerator, Decimal.denominator, powerOfTen, Nat.mul_one]

/-- What lies in a basin is not smaller than half a unit and not much larger than all numbers. -/
theorem magnitude_of_has (hexact : IsExact u) (hne : u ≠ 0) (hlimit : u < unitLimit)
    (hhas : (basin u).Has num den) : den ≤ 2 * num ∧ num ≤ 2 * unitLimit * den := by
  obtain ⟨m, k, rfl, hspacing, -, -⟩ := exists_significand hexact
  have hmpos : 1 ≤ m := Nat.pos_of_mul_pos_right (Nat.pos_of_ne_zero hne)
  obtain ⟨hlow, hhigh, -⟩ := bounds_of_has hspacing hhas
  have hreach : reach m k ≤ 2 := by
    unfold reach
    split <;> decide
  have hleast : 2 * (den * 2 ^ k) ≤ (4 * m - reach m k) * (den * 2 ^ k) :=
    Nat.mul_le_mul_right _ (by omega)
  have hden : den ≤ den * 2 ^ k := Nat.le_mul_of_pos_right den (Nat.two_pow_pos k)
  have hmost : (4 * m + 2) * (den * 2 ^ k) ≤ 8 * m * (den * 2 ^ k) :=
    Nat.mul_le_mul_right _ (by omega)
  have hunits : m * (den * 2 ^ k) ≤ unitLimit * den :=
    calc m * (den * 2 ^ k) = m * 2 ^ k * den := by ring
      _ ≤ unitLimit * den := Nat.mul_le_mul_right den hlimit.le
  have height : 8 * m * (den * 2 ^ k) = 8 * (m * (den * 2 ^ k)) := Nat.mul_assoc _ _ _
  generalize unitLimit = limit at *
  have htwice : 2 * limit * den = 2 * (limit * den) := Nat.mul_assoc _ _ _
  constructor <;> omega

/-- The same in powers of ten. -/
theorem decimal_of_magnitude {d : Decimal} (hlow : d.denominator ≤ 2 * d.numerator)
    (hhigh : d.numerator ≤ 2 * unitLimit * d.denominator) :
    (powerOfTen d.exponent).2 ≤ d.significand * (powerOfTen d.exponent).1 * 10 ^ 324 ∧
      d.significand * (powerOfTen d.exponent).1 ≤ 10 ^ 309 * (powerOfTen d.exponent).2 := by
  have hone : 0 < unitsPerOne ∧ 2 * unitsPerOne ≤ 10 ^ 324 ∧
      2 * unitLimit ≤ 10 ^ 309 * unitsPerOne := by decide +kernel
  obtain ⟨hpos, hsmallest, hlargest⟩ := hone
  unfold Decimal.denominator Decimal.numerator at hlow hhigh
  generalize unitsPerOne = one at *
  generalize unitLimit = limit at *
  generalize d.significand * (powerOfTen d.exponent).1 = value at *
  generalize (powerOfTen d.exponent).2 = den at *
  constructor
  · calc den ≤ value * (2 * one) := by linarith
      _ ≤ value * 10 ^ 324 := Nat.mul_le_mul_left _ hsmallest
  · refine Nat.le_of_mul_le_mul_right ?_ hpos
    calc value * one ≤ 2 * limit * den := hhigh
      _ ≤ 10 ^ 309 * one * den := Nat.mul_le_mul_right _ hlargest
      _ = 10 ^ 309 * den * one := Nat.mul_right_comm _ _ _

theorem ten_pow_pos (k : Nat) : 0 < 10 ^ k := Nat.pow_pos (by decide)

theorem lt_of_pow_le_twice {a b : Nat} (hle : 10 ^ a ≤ 2 * 10 ^ b) : a < b + 1 := by
  refine (Nat.pow_lt_pow_iff_right (a := 10) (by decide)).mp (hle.trans_lt ?_)
  have hpos := ten_pow_pos b
  rw [pow_succ]
  omega

/-- Nothing in the basin of a number is zero. -/
theorem significand_ne_zero {d : Decimal} (hexact : IsExact u) (hne : u ≠ 0)
    (hlimit : u < unitLimit) (hholds : (basin u).holds d = true) : d.significand ≠ 0 := by
  intro hzero
  have hlow := (magnitude_of_has hexact hne hlimit ((holds_iff _ _).mp hholds)).1
  have hden := denominator_pos d
  have hnum : d.numerator = 0 := by rw [Decimal.numerator, hzero, Nat.zero_mul, Nat.zero_mul]
  omega

/-- A decimal in the basin of a number is read as that number. -/
theorem ofDecimal_of_holds {negative : Bool} {d : Decimal} (hexact : IsExact u) (hne : u ≠ 0)
    (hlimit : u < unitLimit) (hsmall : d.significand < 2 ^ 64)
    (hholds : (basin u).holds d = true) :
    ofDecimal negative d.significand d.exponent = .finite negative u := by
  have hhas := (holds_iff _ _).mp hholds
  obtain ⟨hlow, hhigh⟩ := magnitude_of_has hexact hne hlimit hhas
  have hnonzero := significand_ne_zero hexact hne hlimit hholds
  obtain ⟨hmin, hmax⟩ := digitEstimate_bounds hsmall hnonzero
  have hgates : -330 ≤ (digitEstimate d.significand : Int) + d.exponent ∧
      (digitEstimate d.significand : Int) + d.exponent ≤ 310 := by
    obtain ⟨hleast, hmost⟩ := decimal_of_magnitude hlow hhigh
    generalize digitEstimate d.significand = estimate at *
    cases hexponent : d.exponent with
    | ofNat e =>
        rw [hexponent] at hmost
        simp only [powerOfTen, Nat.pow_eq, Nat.mul_one] at hmost
        have hlt : estimate + e < 309 + 1 := by
          refine lt_of_pow_le_twice ?_
          calc 10 ^ (estimate + e) = 10 ^ estimate * 10 ^ e := pow_add _ _ _
            _ ≤ 2 * d.significand * 10 ^ e := Nat.mul_le_mul_right _ hmin
            _ = 2 * (d.significand * 10 ^ e) := Nat.mul_assoc _ _ _
            _ ≤ 2 * 10 ^ 309 := Nat.mul_le_mul_left 2 hmost
        rw [Int.ofNat_eq_natCast]
        omega
    | negSucc e =>
        rw [hexponent] at hleast hmost
        simp only [powerOfTen, Nat.pow_eq, Nat.mul_one] at hleast hmost
        have hgreater : e + 1 < estimate + 1 + 324 := by
          refine (Nat.pow_lt_pow_iff_right (a := 10) (by decide)).mp ?_
          calc 10 ^ (e + 1) ≤ d.significand * 10 ^ 324 := hleast
            _ < 10 ^ (estimate + 1) * 10 ^ 324 :=
                Nat.mul_lt_mul_of_pos_right hmax (ten_pow_pos 324)
            _ = 10 ^ (estimate + 1 + 324) := (pow_add 10 (estimate + 1) 324).symm
        have hless : estimate < 309 + (e + 1) + 1 := by
          refine lt_of_pow_le_twice ?_
          calc 10 ^ estimate ≤ 2 * d.significand := hmin
            _ ≤ 2 * (10 ^ 309 * 10 ^ (e + 1)) := Nat.mul_le_mul_left 2 hmost
            _ = 2 * 10 ^ (309 + (e + 1)) := by rw [pow_add 10 309]
        omega
  rw [ofDecimal_eq_ofUnits hnonzero hgates.1 hgates.2,
    ofUnits_of_has (denominator_pos d) hexact hne hlimit hhas]

end ApiContract.Binary64
