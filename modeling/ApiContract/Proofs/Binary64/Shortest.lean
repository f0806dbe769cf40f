import ApiContract.Proofs.Binary64.Rounding
import ApiContract.Proofs.Text.Numeral
import Mathlib.Algebra.Order.Field.Power
import Mathlib.Algebra.Order.Field.Rat
import Mathlib.Data.Nat.Cast.Order.Ring
import Mathlib.Tactic.FieldSimp
import Mathlib.Tactic.LinearCombination
import Mathlib.Tactic.NormNum

/-!
# Seventeen digits are enough

The grid of seventeen digits is finer than the basin of any number, so the search for the shortest
decimal ends with a hit.  Whether a decimal lies in a basin depends on its value alone, not on how
the value is split into a significand and a power of ten.
-/

namespace ApiContract.Binary64

variable {b : Basin} {u num den num' den' : Nat} {d d' : Decimal} {e : Int}

theorem unitsPerOne_pos : 0 < unitsPerOne := by decide +kernel

/-! ## Values of decimals -/

/-- The number that a decimal stands for. -/
def Decimal.value (d : Decimal) : ℚ := d.significand * 10 ^ d.exponent

theorem powerOfTen_fst (e : Int) : ((powerOfTen e).1 : ℚ) = 10 ^ e * (powerOfTen e).2 := by
  cases e with
  | ofNat e => simp [powerOfTen]
  | negSucc e => simp [powerOfTen, zpow_negSucc]

theorem powerOfTen_pos (e : Int) : 0 < (powerOfTen e).1 ∧ 0 < (powerOfTen e).2 := by
  cases e with
  | ofNat e => exact ⟨ten_pow_pos e, Nat.one_pos⟩
  | negSucc e => exact ⟨Nat.one_pos, ten_pow_pos (e + 1)⟩

/-- Fractions that are equal lie in the same basins. -/
theorem Basin.has_congr (b : Basin) (hden : 0 < den) (hden' : 0 < den')
    (hsame : num * den' = num' * den) : b.Has num den ↔ b.Has num' den' := by
  have hcross : 4 * num * den' = 4 * num' * den := by rw [mul_assoc, hsame, mul_assoc]
  have hlow (bound : Nat) : bound * den ≤ 4 * num ↔ bound * den' ≤ 4 * num' := by
    rw [← Nat.mul_le_mul_right_iff hden', hcross, Nat.mul_right_comm,
      Nat.mul_le_mul_right_iff hden]
  have hhigh (bound : Nat) : 4 * num ≤ bound * den ↔ 4 * num' ≤ bound * den' := by
    rw [← Nat.mul_le_mul_right_iff hden', hcross, Nat.mul_right_comm bound,
      Nat.mul_le_mul_right_iff hden]
  unfold Basin.Has
  simp only [← not_le, hlow, hhigh]

/-- Decimals of the same value lie in the same basins. -/
theorem Basin.holds_congr (b : Basin) (hvalue : d.value = d'.value) : b.holds d = b.holds d' := by
  rw [Bool.eq_iff_iff, holds_iff, holds_iff]
  refine b.has_congr (denominator_pos d) (denominator_pos d') ?_
  unfold Decimal.value at hvalue
  unfold Decimal.numerator Decimal.denominator
  generalize unitsPerOne = one
  rw [← Nat.cast_inj (R := ℚ)]
  push_cast
  rw [powerOfTen_fst, powerOfTen_fst]
  linear_combination (((powerOfTen d.exponent).2 : ℚ) * one * (powerOfTen d'.exponent).2) * hvalue

/-! ## Grids -/

theorem roundQuotient_eq_or (num den : Nat) :
    roundQuotient num den = num / den ∨ roundQuotient num den = num / den + 1 := by
  unfold roundQuotient
  dsimp only
  split
  · exact .inl rfl
  · split
    · exact .inr rfl
    · split
      · exact .inl rfl
      · exact .inr rfl

/-- A hit lies in the basin, on the grid, and next to the magnitude. -/
theorem hit_spec (hhit : gridHit? u b e = some d) :
    b.holds d = true ∧ d.exponent = e ∧
      d.significand ≤ u * (powerOfTen e).2 / ((powerOfTen e).1 * unitsPerOne) + 1 := by
  unfold gridHit? at hhit
  dsimp only at hhit
  generalize u * (powerOfTen e).2 = num at *
  generalize (powerOfTen e).1 * unitsPerOne = den at *
  split at hhit
  case h_1 hbelow _ =>
    cases hhit
    exact ⟨hbelow, rfl, Nat.le_succ _⟩
  case h_2 _ habove =>
    cases hhit
    exact ⟨habove, rfl, Nat.le_refl _⟩
  case h_3 hbelow habove =>
    cases hhit
    refine ⟨?_, rfl, roundQuotient_le num den⟩
    rcases roundQuotient_eq_or num den with heq | heq
    · rw [heq]
      exact hbelow
    · rw [heq]
      exact habove
  case h_4 => cases hhit

/-- What lies strictly between the ends of a basin lies in it. -/
theorem has_of_inside {m k : Nat} (hspacing : spacing (m * 2 ^ k) = 2 ^ k)
    (hlow : (4 * m - reach m k) * (den * 2 ^ k) < 4 * num)
    (hhigh : 4 * num < (4 * m + 2) * (den * 2 ^ k)) : (basin (m * 2 ^ k)).Has num den := by
  have hmul (n : Nat) : n * 2 ^ k * den = n * (den * 2 ^ k) := by ring
  rw [basin_eq hspacing]
  simp only [Basin.Has, hmul]
  split
  · exact ⟨hlow.le, hhigh.le⟩
  · exact ⟨hlow, hhigh⟩

/-- A basin is wider than what is smaller than its magnitude by sixteen powers of ten. -/
theorem lt_basin_width {m k width : Nat} (hm : m < 2 ^ 53) (hwidth : 0 < width)
    (hfine : den * 10 ^ 16 ≤ m * width) : 4 * den < (reach m k + 2) * width := by
  unfold reach
  split
  case isTrue hnarrow =>
    obtain ⟨-, rfl⟩ := hnarrow
    omega
  case isFalse =>
    have hunits : m * width ≤ 2 ^ 53 * width := Nat.mul_le_mul_right _ hm.le
    omega

/-- So a grid that is that fine has a hit in it. -/
theorem isSome_gridHit? (hexact : IsExact u) (hne : u ≠ 0)
    (hfine : (powerOfTen e).1 * unitsPerOne * 10 ^ 16 ≤ u * (powerOfTen e).2) :
    (gridHit? u (basin u) e).isSome = true := by
  obtain ⟨m, k, rfl, hspacing, hm, -⟩ := exists_significand hexact
  have hmpos : 0 < m := Nat.pos_of_mul_pos_right (Nat.pos_of_ne_zero hne)
  cases hhit : gridHit? (m * 2 ^ k) (basin (m * 2 ^ k)) e with
  | some d => rfl
  | none =>
    exfalso
    have hpos : 0 < (powerOfTen e).1 * unitsPerOne :=
      Nat.mul_pos (powerOfTen_pos e).1 unitsPerOne_pos
    have hwidth : 0 < (powerOfTen e).2 * 2 ^ k :=
      Nat.mul_pos (powerOfTen_pos e).2 (Nat.two_pow_pos k)
    have hunits : m * 2 ^ k * (powerOfTen e).2 = m * ((powerOfTen e).2 * 2 ^ k) := by ring
    unfold gridHit? at hhit
    dsimp only at hhit
    split at hhit
    case h_4 hbelow habove =>
      rw [← Bool.not_eq_true, holds_iff] at hbelow habove
      simp only [Decimal.numerator, Decimal.denominator, mul_assoc _ _ unitsPerOne] at hbelow habove
      rw [hunits] at hbelow habove hfine
      have hinside (num : Nat) := @has_of_inside num (powerOfTen e).2 m k hspacing
      simp only [Nat.sub_mul, Nat.add_mul, mul_assoc 4] at hinside
      generalize (powerOfTen e).1 * unitsPerOne = den at *
      generalize (powerOfTen e).2 * 2 ^ k = width at *
      have hwide := lt_basin_width (k := k) hm hwidth hfine
      have hdiv := Nat.div_add_mod' (m * width) den
      have hmod := Nat.mod_lt (m * width) hpos
      generalize m * width / den = whole at *
      generalize m * width % den = rest at *
      have hnext : (whole + 1) * den = whole * den + den := Nat.succ_mul whole den
      rw [Nat.add_mul] at hwide
      -- The two neighbours are `den` apart and both lie outside.
      have hbelow : 4 * (whole * den) ≤ 4 * (m * width) - reach m k * width :=
        not_lt.mp fun hlow => hbelow (hinside _ hlow (by omega))
      have habove : 4 * (m * width) + 2 * width ≤ 4 * ((whole + 1) * den) :=
        not_lt.mp fun hhigh => habove (hinside _ (by omega) hhigh)
      omega
    all_goals cases hhit

/-! ## The search -/

/-- The first digit of a magnitude. -/
theorem leadingExponent_bounds (hne : u ≠ 0) :
    (10 : ℚ) ^ leadingExponent u * unitsPerOne ≤ u ∧
      u < (10 : ℚ) ^ (leadingExponent u + 1) * unitsPerOne := by
  have hone := unitsPerOne_pos
  have hsmall : unitsPerOne ≤ 10 ^ 400 := by decide +kernel
  have hpower (digits : Nat) : (10 : ℚ) ^ ((digits : Int) - 400) * (10 ^ 400 : Nat) = (10 ^ digits : Nat) := by
    rw [Nat.cast_pow, Nat.cast_pow, Nat.cast_ofNat, ← zpow_natCast, ← zpow_natCast,
      ← zpow_add₀ (by norm_num)]
    congr 1
    omega
  have hscale := ten_pow_pos 400
  simp only [leadingExponent, Nat.pow_eq]
  generalize 10 ^ 400 = scale at *
  generalize unitsPerOne = one at *
  have hscaled : 0 < u * scale / one :=
    Nat.div_pos (hsmall.trans (Nat.le_mul_of_pos_left _ (Nat.pos_of_ne_zero hne))) hone
  obtain ⟨hlow, hhigh⟩ := Text.toDigits_length_bounds hscaled
  have hdigits : 0 < (Nat.toDigits 10 (u * scale / one)).length :=
    List.length_pos_iff.mpr Nat.toDigits_ne_nil
  generalize (Nat.toDigits 10 (u * scale / one)).length = digits at *
  rw [Nat.le_div_iff_mul_le hone] at hlow
  rw [Nat.div_lt_iff_lt_mul hone] at hhigh
  have hpos : (0 : ℚ) < scale := by exact_mod_cast hscale
  constructor
  · refine le_of_mul_le_mul_right ?_ hpos
    calc (10 : ℚ) ^ ((digits : Int) - 401) * one * scale
        = (10 : ℚ) ^ (((digits - 1 : Nat) : Int) - 400) * scale * one := by
          rw [mul_right_comm, show (digits : Int) - 401 = ((digits - 1 : Nat) : Int) - 400 by omega]
      _ = (10 ^ (digits - 1) * one : Nat) := by rw [hpower, Nat.cast_mul]
      _ ≤ (u * scale : Nat) := Nat.cast_le.mpr hlow
      _ = u * scale := Nat.cast_mul _ _
  · refine lt_of_mul_lt_mul_right ?_ hpos.le
    calc (u : ℚ) * scale = (u * scale : Nat) := (Nat.cast_mul _ _).symm
      _ < (10 ^ digits * one : Nat) := Nat.cast_lt.mpr hhigh
      _ = (10 : ℚ) ^ ((digits : Int) - 400) * scale * one := by rw [hpower, Nat.cast_mul]
      _ = (10 : ℚ) ^ ((digits : Int) - 401 + 1) * one * scale := by
          rw [mul_right_comm, show (digits : Int) - 400 = digits - 401 + 1 by omega]

/-- A search ends with a hit if it comes to a grid that has one. -/
theorem exists_hit {tries i : Nat} (hi : i < tries) (hhit : (gridHit? u b (e - i)).isSome = true) :
    ∃ j < tries, gridHit? u b (e - j) = some (searchGrids u b tries e) := by
  induction tries generalizing e i with
  | zero => omega
  | succ tries ih =>
      cases hfirst : gridHit? u b e with
      | some d => exact ⟨0, Nat.succ_pos _, by simp [searchGrids, hfirst]⟩
      | none =>
          cases i with
          | zero => simp [hfirst] at hhit
          | succ i =>
              have hshift (j : Nat) : e - (j + 1 : Nat) = e - 1 - j := by omega
              rw [hshift] at hhit
              obtain ⟨j, hj, hfound⟩ := ih (Nat.lt_of_succ_lt_succ hi) hhit
              refine ⟨j + 1, Nat.succ_lt_succ hj, ?_⟩
              rw [hshift, hfound, searchGrids, hfirst]

/-- How much smaller a power of ten is than a larger one. -/
theorem ten_zpow_sub (e : Int) (i : Nat) : (10 : ℚ) ^ (e - i) * 10 ^ i = 10 ^ e := by
  rw [← zpow_natCast, ← zpow_add₀ (by norm_num), Int.sub_add_cancel]

/-- The shortest decimal of a magnitude lies in its basin and has no more than seventeen digits. -/
theorem shortest_spec (hexact : IsExact u) (hne : u ≠ 0) :
    (basin u).holds (shortest u) = true ∧ (shortest u).significand ≤ 10 ^ 17 := by
  obtain ⟨hlow, hhigh⟩ := leadingExponent_bounds hne
  have hfine : (gridHit? u (basin u) (leadingExponent u - (16 : Nat))).isSome = true := by
    refine isSome_gridHit? hexact hne (Nat.cast_le (α := ℚ) |>.mp ?_)
    generalize unitsPerOne = one at *
    push_cast
    rw [powerOfTen_fst]
    calc (10 : ℚ) ^ (leadingExponent u - (16 : Nat)) *
            (powerOfTen (leadingExponent u - (16 : Nat))).2 * one * 10 ^ 16
        = (10 : ℚ) ^ leadingExponent u * one *
            (powerOfTen (leadingExponent u - (16 : Nat))).2 := by
          rw [← ten_zpow_sub (leadingExponent u) 16]
          ring
      _ ≤ u * (powerOfTen (leadingExponent u - (16 : Nat))).2 :=
          mul_le_mul_of_nonneg_right hlow (Nat.cast_nonneg _)
  obtain ⟨i, hi, hhit⟩ := exists_hit (by decide : 16 < 17) hfine
  obtain ⟨hholds, -, hsignificand⟩ := hit_spec hhit
  refine ⟨hholds, hsignificand.trans ?_⟩
  obtain ⟨hfirst, hsecond⟩ := powerOfTen_pos (leadingExponent u - i)
  have hpower := powerOfTen_fst (leadingExponent u - i)
  generalize powerOfTen (leadingExponent u - i) = power at *
  have hden : 0 < power.1 * unitsPerOne := Nat.mul_pos hfirst unitsPerOne_pos
  generalize unitsPerOne = one at *
  refine Nat.succ_le_of_lt ((Nat.div_lt_iff_lt_mul hden).mpr (Nat.cast_lt (α := ℚ) |>.mp ?_))
  have hdigits : (10 : ℚ) ^ (i + 1) ≤ 10 ^ 17 := pow_le_pow_right₀ (by norm_num) (by omega)
  push_cast
  calc (u : ℚ) * power.2 < 10 ^ (leadingExponent u + 1) * one * power.2 :=
        mul_lt_mul_of_pos_right hhigh (Nat.cast_pos.mpr hsecond)
    _ = 10 ^ (i + 1) * (power.1 * one) := by
        rw [hpower, zpow_add_one₀ (by norm_num), ← ten_zpow_sub (leadingExponent u) i]
        ring
    _ ≤ 10 ^ 17 * (power.1 * one) :=
        mul_le_mul_of_nonneg_right hdigits (by positivity)

end ApiContract.Binary64
