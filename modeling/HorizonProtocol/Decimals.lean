import Mathlib.Algebra.Order.Field.Power
import Mathlib.Algebra.Order.Field.Rat
import Mathlib.Data.Nat.Log
import Mathlib.Data.Nat.Sqrt
import Mathlib.Tactic.Linarith
import Mathlib.Tactic.Positivity

/-!
# Decimal floating-point numbers

Decimal numbers that are not negative, products and square roots rounded to a precision of so many
digits, half to even. A rounded root tells the whole numbers apart as long as it has twice their
digits, and one more digit is too many.

* `sqrt_le_iff` — a root that is short enough is compared with whole numbers without an error.
* `sqrt_sq_add_one` — a root that is too long is taken for the whole number below it.
-/

namespace HorizonProtocol.Decimals

structure Decimal where
  coefficient : ℕ
  exponent : ℤ
  deriving DecidableEq

def Decimal.value (d : Decimal) : ℚ := d.coefficient * 10 ^ d.exponent

/-- A whole number, however many digits it has. -/
def ofNat (n : ℕ) : Decimal := ⟨n, 0⟩

/-- The digits of a number; zero has one. -/
def digits (n : ℕ) : ℕ := Nat.log 10 n + 1

/-- From how what is beyond the last digit stands to the half of it. -/
def halfEven (s : ℕ) : Ordering → ℕ
  | .lt => s
  | .eq => if s % 2 = 0 then s else s + 1
  | .gt => s + 1

/-- Rounded to so many digits. -/
def round (prec : ℕ) (d : Decimal) : Decimal :=
  let excess := digits d.coefficient - prec
  if excess = 0 then d
  else
    let unit := 10 ^ excess
    { coefficient :=
        halfEven (d.coefficient / unit) (compare (2 * (d.coefficient % unit)) unit)
      exponent := d.exponent + excess }

def mul (prec : ℕ) (a b : Decimal) : Decimal :=
  round prec ⟨a.coefficient * b.coefficient, a.exponent + b.exponent⟩

/-- The root of a whole number. -/
def sqrt (prec n : ℕ) : Decimal :=
  let d := digits (Nat.sqrt n)
  if d ≤ prec then
    let k := prec - d
    let s := Nat.sqrt (n * 100 ^ k)
    ⟨halfEven s (compare (4 * (n * 100 ^ k)) ((2 * s + 1) ^ 2)), -k⟩
  else
    let k := d - prec
    let s := Nat.sqrt (n / 100 ^ k)
    ⟨halfEven s (compare (4 * n) ((2 * s + 1) ^ 2 * 100 ^ k)), k⟩

/-! ## Rounding -/

theorem le_halfEven (s : ℕ) (o : Ordering) : s ≤ halfEven s o := by
  cases o <;> simp only [halfEven] <;> grind

theorem halfEven_le (s : ℕ) (o : Ordering) : halfEven s o ≤ s + 1 := by
  cases o <;> simp only [halfEven] <;> grind

theorem lt_pow_digits (n : ℕ) : n < 10 ^ digits n := Nat.lt_pow_succ_log_self (by decide) n

theorem digits_le_iff {n k : ℕ} (hk : 0 < k) : digits n ≤ k ↔ n < 10 ^ k := by
  rw [digits, Nat.add_one_le_iff]
  constructor
  · intro h
    exact (lt_pow_digits n).trans_le (Nat.pow_le_pow_right (by decide) h)
  · exact Nat.log_lt_of_lt_pow' hk.ne'

/-- What has no more digits is kept as it is. -/
theorem round_of_lt {prec : ℕ} {d : Decimal} (hprec : 0 < prec) (h : d.coefficient < 10 ^ prec) :
    round prec d = d := by
  have hdigits := (digits_le_iff hprec).mpr h
  rw [round, if_pos (Nat.sub_eq_zero_of_le hdigits)]

/-- A rounded number is not below a power of ten of fewer digits that it was not below before. -/
theorem le_value_round {prec h : ℕ} {d : Decimal} (hh : h < prec) (hd : 10 ^ h ≤ d.coefficient) :
    (10 : ℚ) ^ h * 10 ^ d.exponent ≤ (round prec d).value := by
  have hpos : (0 : ℚ) < 10 ^ d.exponent := by positivity
  rw [round]
  dsimp only
  split
  · apply mul_le_mul_of_nonneg_right _ hpos.le
    exact_mod_cast hd
  · next hexcess =>
      have hcoeff : d.coefficient ≠ 0 := by
        have := Nat.pow_pos (n := h) (show 0 < 10 by decide)
        omega
      have hpow : 10 ^ Nat.log 10 d.coefficient ≤ d.coefficient := Nat.pow_log_le_self 10 hcoeff
      -- what is left of the coefficient has `prec` digits
      have hquot : 10 ^ h ≤ d.coefficient / 10 ^ (digits d.coefficient - prec) := by
        rw [Nat.le_div_iff_mul_le (by positivity), ← pow_add]
        refine le_trans (Nat.pow_le_pow_right (by decide) ?_) hpow
        rw [digits] at hexcess ⊢
        omega
      have hround := hquot.trans (le_halfEven _ (compare
        (2 * (d.coefficient % 10 ^ (digits d.coefficient - prec)))
          (10 ^ (digits d.coefficient - prec))))
      rw [Decimal.value]
      dsimp only
      apply mul_le_mul
      · exact_mod_cast hround
      · apply zpow_le_zpow_right₀ (by norm_num)
        omega
      · exact hpos.le
      · positivity

/-! ## Roots -/

/-- A root that has digits after the point, in units of its last digit. -/
theorem sqrt_value {prec n q : ℕ} (h : digits (Nat.sqrt n) ≤ prec)
    (hq : 10 ^ (prec - digits (Nat.sqrt n)) = q) :
    (sqrt prec n).value * q = (halfEven (Nat.sqrt (n * q ^ 2))
      (compare (4 * (n * q ^ 2)) ((2 * Nat.sqrt (n * q ^ 2) + 1) ^ 2)) : ℕ) := by
  have hscale : 100 ^ (prec - digits (Nat.sqrt n)) = q ^ 2 := by
    rw [← hq, ← pow_mul, mul_comm, pow_mul]
    rfl
  have hqpos : (q : ℚ) ≠ 0 := by
    rw [← hq]
    positivity
  have hcast : (10 : ℚ) ^ (prec - digits (Nat.sqrt n)) = q := by
    rw [← hq]
    norm_cast
  rw [sqrt]
  dsimp only
  rw [if_pos h, hscale, Decimal.value]
  dsimp only
  rw [zpow_neg, zpow_natCast, hcast, mul_assoc, inv_mul_cancel₀ hqpos, mul_one]

/-- **A root that is short enough** is compared with whole numbers as if it were exact. -/
theorem sqrt_le_iff {prec h n : ℕ} (hh : 0 < h) (hprec : 2 * h ≤ prec) (hn : n < 10 ^ (2 * h))
    (m : ℕ) : (sqrt prec n).value ≤ m ↔ n ≤ m ^ 2 := by
  have hroot : Nat.sqrt n < 10 ^ h := by
    rw [Nat.sqrt_lt', ← pow_mul, mul_comm]
    exact hn
  have hd : digits (Nat.sqrt n) ≤ h := (digits_le_iff hh).mpr hroot
  obtain ⟨q, hq⟩ : ∃ q, 10 ^ (prec - digits (Nat.sqrt n)) = q := ⟨_, rfl⟩
  have hvalue := sqrt_value (by omega) hq
  -- the unit is worth more than the root, which has at most half of the digits
  have hlarge : Nat.sqrt n < q := by
    rw [← hq]
    refine (lt_pow_digits _).trans_le (Nat.pow_le_pow_right (by decide) ?_)
    omega
  have hqpos : 0 < q := by omega
  obtain ⟨s, hs⟩ : ∃ s, Nat.sqrt (n * q ^ 2) = s := ⟨_, rfl⟩
  have hsle : s ^ 2 ≤ n * q ^ 2 := hs ▸ Nat.sqrt_le' _
  rw [hs] at hvalue
  have hle : (sqrt prec n).value ≤ m ↔
      halfEven s (compare (4 * (n * q ^ 2)) ((2 * s + 1) ^ 2)) ≤ m * q := by
    rw [← mul_le_mul_iff_of_pos_right (show (0 : ℚ) < q by exact_mod_cast hqpos), hvalue]
    norm_cast
  rw [hle]
  have hbelow := le_halfEven s (compare (4 * (n * q ^ 2)) ((2 * s + 1) ^ 2))
  have habove := halfEven_le s (compare (4 * (n * q ^ 2)) ((2 * s + 1) ^ 2))
  constructor
  · intro hround
    by_contra hlt
    rw [not_le] at hlt
    have hm : m ≤ Nat.sqrt n := Nat.le_sqrt'.mpr hlt.le
    have hms : m * q ≤ s := by
      rw [← hs, Nat.le_sqrt', mul_pow]
      exact Nat.mul_le_mul_right _ hlt.le
    -- so the root was rounded down to the whole number, but it is beyond the half
    have hseq : s = m * q := by omega
    have hgap : (m ^ 2 + 1) * q ^ 2 ≤ n * q ^ 2 := Nat.mul_le_mul_right _ hlt
    have hhalf : (2 * s + 1) ^ 2 < 4 * (n * q ^ 2) := by
      rw [hseq]
      nlinarith
    rw [Nat.compare_eq_gt.mpr hhalf, halfEven] at hround
    omega
  · intro hm
    have hms : s ≤ m * q := by
      have hsq : s ^ 2 ≤ (m * q) ^ 2 := by
        rw [mul_pow]
        exact hsle.trans (Nat.mul_le_mul_right _ hm)
      exact (Nat.pow_le_pow_iff_left two_ne_zero).mp hsq
    rcases hms.lt_or_eq with hlt | heq
    · omega
    · -- the root is whole, and nothing is rounded
      have hhalf : 4 * (n * q ^ 2) < (2 * s + 1) ^ 2 := by
        have hnq : n * q ^ 2 ≤ s ^ 2 := by
          rw [heq, mul_pow]
          exact Nat.mul_le_mul_right _ hm
        nlinarith
      rw [Nat.compare_eq_lt.mpr hhalf, halfEven]
      exact hms

/-- **A root that is too long**: of a square and one more, the one is lost. -/
theorem sqrt_sq_add_one {prec h m : ℕ} (hprec : prec ≤ 2 * h) (hm : 10 ^ h ≤ m)
    (hlt : m < 10 ^ prec) : (sqrt prec (m ^ 2 + 1)).value = m := by
  have hmpos : 0 < m := lt_of_lt_of_le (by positivity) hm
  have hroot : Nat.sqrt (m ^ 2 + 1) = m := Nat.sqrt_add_eq' m (by omega)
  have hlong : h < digits m := by
    by_contra hle
    have hm' : m < 10 ^ h :=
      (lt_pow_digits m).trans_le (Nat.pow_le_pow_right (by decide) (not_lt.mp hle))
    omega
  have hfits : digits m ≤ prec := by
    apply (digits_le_iff _).mpr hlt
    by_contra hzero
    rw [not_lt, Nat.le_zero] at hzero
    rw [hzero] at hlt
    omega
  obtain ⟨q, hq⟩ : ∃ q, 10 ^ (prec - digits m) = q := ⟨_, rfl⟩
  have hvalue : (sqrt prec (m ^ 2 + 1)).value * q = _ :=
    sqrt_value (by rwa [hroot]) (by rwa [hroot])
  -- the unit is worth no more than the root, which has more than half of the digits
  have hsmall : q ≤ m := by
    rw [← hq]
    refine le_trans (Nat.pow_le_pow_right (by decide) ?_) (Nat.pow_log_le_self 10 hmpos.ne')
    rw [digits] at hlong ⊢
    omega
  have hqpos : (q : ℚ) ≠ 0 := by
    rw [← hq]
    positivity
  have hs : Nat.sqrt ((m ^ 2 + 1) * q ^ 2) = m * q := by
    rw [add_mul, one_mul, ← mul_pow]
    apply Nat.sqrt_add_eq'
    nlinarith
  have hhalf : 4 * ((m ^ 2 + 1) * q ^ 2) < (2 * (m * q) + 1) ^ 2 := by nlinarith
  rw [hs, Nat.compare_eq_lt.mpr hhalf, halfEven, Nat.cast_mul] at hvalue
  exact mul_right_cancel₀ hqpos hvalue

end HorizonProtocol.Decimals
