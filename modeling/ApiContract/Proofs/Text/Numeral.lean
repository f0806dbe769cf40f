import ApiContract.Text.Numeral
import Mathlib.Data.Nat.Digits.Defs

/-!
# Numerals are read back

Digits in a base stand for a number below the power of the base that they are as many as.  The
decimal digits that a number is written with stand for that number again: among them there is no
sign, blank or group mark that a reader could take for its own.
-/

namespace ApiContract.Text

/-! ## Digits one by one -/

/-- A number with one more digit. -/
def addDigit (base : Nat) (number : Option Nat) (c : Char) : Option Nat := do
  let n ← number
  let d ← hexValue? c
  if d < base then some (n * base + d) else none

theorem digitsValue?_eq (base : Nat) (cs : List Char) :
    digitsValue? base cs = if cs.isEmpty then none else cs.foldl (addDigit base) (some 0) := rfl

theorem foldl_addDigit_none (base : Nat) (cs : List Char) :
    cs.foldl (addDigit base) none = none := by
  induction cs with
  | nil => rfl
  | cons c rest ih => exact ih

theorem addDigit_eq_some_iff {base n next : Nat} {c : Char} :
    addDigit base (some n) c = some next ↔
      ∃ d, hexValue? c = some d ∧ d < base ∧ n * base + d = next := by
  simp [addDigit, Option.bind_eq_some_iff]

/-- More digits multiply by the base and add less than it. -/
theorem lt_of_foldl_addDigit {base start n : Nat} {cs : List Char}
    (hvalue : cs.foldl (addDigit base) (some start) = some n) :
    n < (start + 1) * Nat.pow base cs.length := by
  induction cs generalizing start with
  | nil =>
      cases hvalue
      simp
  | cons c rest ih =>
      rw [List.foldl_cons] at hvalue
      cases hnext : addDigit base (some start) c with
      | none => simp [hnext, foldl_addDigit_none] at hvalue
      | some next =>
          rw [hnext] at hvalue
          obtain ⟨d, -, hd, rfl⟩ := addDigit_eq_some_iff.mp hnext
          have hstep : start * base + d + 1 ≤ (start + 1) * base := by
            rw [Nat.succ_mul]
            omega
          calc n < (start * base + d + 1) * Nat.pow base rest.length := ih hvalue
            _ ≤ (start + 1) * base * Nat.pow base rest.length := Nat.mul_le_mul_right _ hstep
            _ = (start + 1) * Nat.pow base (c :: rest).length := by
              rw [List.length_cons, Nat.pow_eq, Nat.pow_eq, Nat.pow_succ', Nat.mul_assoc]

/-- Digits in a base stand for a number below the power of the base that they are as many as. -/
theorem digitsValue?_lt {base n : Nat} {cs : List Char} (hvalue : digitsValue? base cs = some n) :
    n < Nat.pow base cs.length := by
  rw [digitsValue?_eq] at hvalue
  split at hvalue
  · cases hvalue
  · simpa using lt_of_foldl_addDigit hvalue

/-! ## ASCII digits -/

section Digit

variable {c : Char}

theorem toNat_of_isDigit (hdigit : c.isDigit = true) : 48 ≤ c.toNat ∧ c.toNat ≤ 57 := by
  rw [Char.isDigit_iff_toNat] at hdigit
  simpa using hdigit

theorem hexValue?_of_isDigit (hdigit : c.isDigit = true) : hexValue? c = some (c.toNat - 48) := by
  rw [hexValue?, if_pos hdigit]

theorem digitValue?_of_isDigit (hdigit : c.isDigit = true) :
    digitValue? c = some (c.toNat - 48) := by
  have hrange := toNat_of_isDigit hdigit
  rw [digitValue?, if_pos (by omega), if_pos hdigit]

theorem isBlank_of_isDigit (hdigit : c.isDigit = true) : isBlank c = false := by
  have hrange := toNat_of_isDigit hdigit
  have hspace : c ≠ ' ' := by
    rintro rfl
    cases hdigit
  have hother : ∀ code ∈ [0x85, 0xA0, 0x1680, 0x2028, 0x2029, 0x202F, 0x205F, 0x3000],
      c.toNat ≠ code := by
    intro code hcode heq
    simp only [List.mem_cons, List.not_mem_nil, or_false] at hcode
    omega
  simp only [List.forall_mem_cons] at hother
  simp [isBlank, isAsciiBlank, hspace, hother]
  omega

theorem ne_underscore_of_isDigit (hdigit : c.isDigit = true) : c ≠ '_' := by
  rintro rfl
  cases hdigit

end Digit

/-! ## Runs of digits -/

section Run

variable {cs : List Char}

/-- A run of decimal digits stands for the number that they make up. -/
theorem digitsValue?_of_digits (hdigits : ∀ c ∈ cs, c.isDigit = true) (hne : cs ≠ []) :
    digitsValue? 10 cs = some (Nat.ofDigitChars 10 cs 0) := by
  have hfold : ∀ (rest : List Char) (start : Nat), (∀ c ∈ rest, c.isDigit = true) →
      rest.foldl (addDigit 10) (some start) = some (Nat.ofDigitChars 10 rest start) := by
    intro rest
    induction rest with
    | nil => exact fun _ _ => rfl
    | cons c rest ih =>
        intro start hrest
        obtain ⟨hc, hrest⟩ := List.forall_mem_cons.mp hrest
        have hrange := toNat_of_isDigit hc
        have hnext : addDigit 10 (some start) c = some (10 * start + (c.toNat - '0'.toNat)) := by
          apply addDigit_eq_some_iff.mpr
          refine ⟨_, hexValue?_of_isDigit hc, by omega, ?_⟩
          rw [Nat.mul_comm]
          rfl
        rw [List.foldl_cons, hnext, ih _ hrest, Nat.ofDigitChars_cons]
  rw [digitsValue?_eq, if_neg (by simpa using hne), hfold cs 0 hdigits]

theorem foldDigits_of_digits (hdigits : ∀ c ∈ cs, c.isDigit = true) : foldDigits cs = cs := by
  rw [foldDigits]
  conv_rhs => rw [← List.map_id cs]
  apply List.map_congr_left
  intro c hc
  have hrange := toNat_of_isDigit (hdigits c hc)
  have hback : 48 + (c.toNat - 48) = c.toNat := by omega
  rw [digitValue?_of_isDigit (hdigits c hc)]
  simp only [hback, Char.ofNat_toNat, id_eq]

theorem trimBoth_of_digits (hdigits : ∀ c ∈ cs, c.isDigit = true) : trimBoth isBlank cs = cs := by
  have hkeep : ∀ other : List Char, (∀ c ∈ other, c.isDigit = true) →
      other.dropWhile isBlank = other := by
    intro other hother
    cases other with
    | nil => rfl
    | cons c rest => rw [List.dropWhile_cons, isBlank_of_isDigit (hother c List.mem_cons_self)]; rfl
  have hreverse : ∀ c ∈ cs.reverse, c.isDigit = true := by simpa using hdigits
  rw [trimBoth, hkeep cs hdigits, hkeep _ hreverse, List.reverse_reverse]

theorem joinGroups?_of_digits {isDigit : Char → Bool} (hdigits : ∀ c ∈ cs, c.isDigit = true) :
    joinGroups? isDigit cs = some cs := by
  induction cs with
  | nil => rfl
  | cons c rest ih =>
      obtain ⟨hc, hrest⟩ := List.forall_mem_cons.mp hdigits
      have hplain : c ≠ '_' := ne_underscore_of_isDigit hc
      rw [joinGroups?.eq_4]
      · simp [hplain, ih hrest]
      · rintro rfl
        exact absurd rfl hplain
      · rintro d others rfl
        exact absurd rfl (ne_underscore_of_isDigit (hrest '_' List.mem_cons_self))

theorem splitSign_of_digits (hdigits : ∀ c ∈ cs, c.isDigit = true) : splitSign cs = (false, cs) := by
  rw [splitSign.eq_3]
  · rintro rest rfl
    exact absurd (hdigits '-' List.mem_cons_self) (by decide)
  · rintro rest rfl
    exact absurd (hdigits '+' List.mem_cons_self) (by decide)

theorem dropBaseMark_ten (cs : List Char) : dropBaseMark 10 cs = cs := by
  unfold dropBaseMark
  split <;> rfl

end Run

/-- Behind a run of digits comes something else, or nothing. -/
def EndsRun (rest : List Char) : Prop := ∀ c ∈ rest.head?, c.isDigit = false

section Span

variable {cs rest : List Char} (hdigits : ∀ c ∈ cs, c.isDigit = true) (hrest : EndsRun rest)

include hdigits hrest

theorem takeWhile_digits : (cs ++ rest).takeWhile (·.isDigit) = cs := by
  rw [List.takeWhile_append_of_pos hdigits]
  cases rest with
  | nil => simp
  | cons c rest => simp [hrest c rfl]

theorem dropWhile_digits : (cs ++ rest).dropWhile (·.isDigit) = rest := by
  rw [List.dropWhile_append_of_pos hdigits]
  cases rest with
  | nil => rfl
  | cons c rest => simp [hrest c rfl]

end Span

/-! ## Numbers as they are written -/

theorem isDigit_of_mem_toDigits {n : Nat} {c : Char} (hc : c ∈ Nat.toDigits 10 n) :
    c.isDigit = true :=
  Nat.isDigit_of_mem_toDigits (by decide) (by decide) hc

theorem toList_toString (n : Nat) : (toString n).toList = Nat.toDigits 10 n := by
  rw [Nat.toString_eq_ofList_toDigits, String.toList_ofList]

theorem toString_injective : Function.Injective (toString : Nat → String) := by
  intro left right heq
  have hdigits : Nat.toDigits 10 left = Nat.toDigits 10 right := by
    rw [← toList_toString, heq, toList_toString]
  rw [← Nat.ofDigitChars_ten_toDigits (n := left), hdigits, Nat.ofDigitChars_ten_toDigits]

theorem digitsValue?_toDigits (n : Nat) : digitsValue? 10 (Nat.toDigits 10 n) = some n := by
  rw [digitsValue?_of_digits (fun _ hc => isDigit_of_mem_toDigits hc) Nat.toDigits_ne_nil,
    Nat.ofDigitChars_ten_toDigits]

theorem length_toDigits_le {n : Nat} (hn : n < 10 ^ digitLimit) :
    (Nat.toDigits 10 n).length ≤ digitLimit :=
  (Nat.length_toDigits_le_iff (by decide) (by decide)).mpr hn

/-- The first digit of a positive number is not zero. -/
theorem head?_toDigits_ne {n : Nat} (hpos : 0 < n) : (Nat.toDigits 10 n).head? ≠ some '0' := by
  induction n using Nat.strong_induction_on with
  | _ n ih =>
      rw [Nat.toDigits_eq_if (by decide)]
      split
      case isTrue hlt =>
        have hdigits : ∀ d < 10, 0 < d → [Nat.digitChar d].head? ≠ some '0' := by decide
        exact hdigits n hlt hpos
      case isFalse =>
        have hrest := ih (n / 10) (by omega) (by omega)
        obtain ⟨first, rest, hdigits⟩ := List.exists_cons_of_ne_nil
          (Nat.toDigits_ne_nil (n := n / 10) (b := 10))
        rw [hdigits] at hrest ⊢
        exact hrest

/-- A positive number is at least the power of ten of its first digit, and below the next one. -/
theorem toDigits_length_bounds {n : Nat} (hpos : 0 < n) :
    10 ^ ((Nat.toDigits 10 n).length - 1) ≤ n ∧ n < 10 ^ (Nat.toDigits 10 n).length := by
  have hdigits : 0 < (Nat.toDigits 10 n).length := List.length_pos_iff.mpr Nat.toDigits_ne_nil
  have hlength (k : Nat) (hk : 0 < k) := Nat.length_toDigits_le_iff (n := n) (by decide : 1 < 10) hk
  refine ⟨not_lt.mp fun hless => ?_, (hlength _ hdigits).mp (Nat.le_refl _)⟩
  by_cases hone : (Nat.toDigits 10 n).length = 1
  · rw [hone] at hless
    omega
  · have hfewer := (hlength _ (by omega)).mpr hless
    omega

/-- A number with few enough digits is read back from its text. -/
theorem wholeNumber?_toString {n : Nat} (hn : n < 10 ^ digitLimit) :
    wholeNumber? 10 (toString n).toList = some (n : Int) := by
  have hdigits : ∀ c ∈ Nat.toDigits 10 n, c.isDigit = true := fun _ hc => isDigit_of_mem_toDigits hc
  have hlength := length_toDigits_le hn
  rw [toList_toString, wholeNumber?, trimBoth_of_digits hdigits, foldDigits_of_digits hdigits,
    splitSign_of_digits hdigits]
  simp [dropBaseMark_ten, joinGroups?_of_digits hdigits, digitsValue?_toDigits, hlength]

end ApiContract.Text
