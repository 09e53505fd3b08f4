import Mathlib.Algebra.Order.Floor.Semifield
import Mathlib.Data.Int.Sqrt
import Mathlib.Data.Nat.Sqrt
import Mathlib.Order.Bounds.Basic
import Mathlib.Tactic.Linarith
import Mathlib.Tactic.Ring

/-!
# Least integer travel time

`leastTime v d2` is the smallest `n` with `d2 ≤ (v * n) ^ 2`: the whole time units a signal of
speed `v` needs for the distance whose square is `d2`. It is found as integer code finds it, from
an estimate `⌈⌈√d2⌉ / v⌉` and two correcting loops, one down and one up.

* `leastTime_le_iff` — the search lands on the exact boundary, for every distance.
* `leastTime_eq_ceil` — it is the quotient of distance and speed, rounded up.
* `search_iff` — the loops of the code end there, and nowhere else.
-/

namespace LeastTime

/-- `while dt > 0 and (v * (dt - 1)) ** 2 >= d2: dt -= 1`. -/
def stepDown (v d2 : Nat) : Nat → Nat
  | 0 => 0
  | dt + 1 => if d2 ≤ (v * dt) ^ 2 then stepDown v d2 dt else dt + 1

/-- `while (v * dt) ** 2 < d2: dt += 1`, for as many rounds as there is fuel. -/
def stepUp (v d2 : Nat) : Nat → Nat → Nat
  | 0, dt => dt
  | fuel + 1, dt => if (v * dt) ^ 2 < d2 then stepUp v d2 fuel (dt + 1) else dt

/-- `⌈√d2⌉`, from the integer square root. -/
def ceilSqrt (d2 : Nat) : Nat :=
  let r := Nat.sqrt d2
  if r * r < d2 then r + 1 else r

/-- The search: `0` for no distance, else the estimate corrected down and then up. The second
loop runs no round at all (`stepUp_of_le`), so any fuel does. -/
def leastTime (v d2 : Nat) : Nat :=
  if d2 = 0 then 0
  else
    let r := ceilSqrt d2
    let dt := (r + v - 1) / v
    stepUp v d2 d2 (stepDown v d2 dt)

variable {v d2 : Nat}

theorem stepDown_le_iff {dt : Nat} (hdt : d2 ≤ (v * dt) ^ 2) (n : Nat) :
    stepDown v d2 dt ≤ n ↔ d2 ≤ (v * n) ^ 2 := by
  have hmono : ∀ {m n : Nat}, m ≤ n → (v * m) ^ 2 ≤ (v * n) ^ 2 := fun h =>
    Nat.pow_le_pow_left (Nat.mul_le_mul_left v h) 2
  induction dt with
  | zero =>
      simp only [stepDown, Nat.zero_le, true_iff]
      exact hdt.trans (hmono (Nat.zero_le n))
  | succ dt ih =>
      rw [stepDown]
      split
      · next h => exact ih h
      · next h =>
          constructor
          · exact fun hn => hdt.trans (hmono hn)
          · intro hn
            by_contra hlt
            exact h (hn.trans (hmono (by omega)))

/-- Once the time is enough, the upward loop stops at once. -/
theorem stepUp_of_le (fuel : Nat) {dt : Nat} (hdt : d2 ≤ (v * dt) ^ 2) :
    stepUp v d2 fuel dt = dt := by
  cases fuel with
  | zero => rfl
  | succ fuel => rw [stepUp, if_neg (Nat.not_lt.mpr hdt)]

theorem ceilSqrt_le_iff (n : Nat) : ceilSqrt d2 ≤ n ↔ d2 ≤ n ^ 2 := by
  unfold ceilSqrt
  dsimp only
  split
  · next h =>
      rw [Nat.succ_le_iff, Nat.sqrt_lt']
      refine ⟨le_of_lt, fun hle => lt_of_le_of_ne hle ?_⟩
      rintro rfl
      simp [pow_two] at h
  · next h =>
      have hsquare : d2 = Nat.sqrt d2 ^ 2 := by
        rw [pow_two]
        exact le_antisymm (Nat.not_lt.mp h) (Nat.sqrt_le d2)
      rw [← Nat.pow_le_pow_iff_left two_ne_zero, ← hsquare]

/-- The estimate is never too small. -/
theorem le_estimate_sq (hv : 0 < v) (d2 : Nat) :
    d2 ≤ (v * ((ceilSqrt d2 + v - 1) / v)) ^ 2 := by
  have hceil : ceilSqrt d2 ≤ v * ((ceilSqrt d2 + v - 1) / v) := by
    have hdiv := Nat.div_add_mod (ceilSqrt d2 + v - 1) v
    have hmod := Nat.mod_lt (ceilSqrt d2 + v - 1) hv
    omega
  exact ((ceilSqrt_le_iff _).mp le_rfl).trans (Nat.pow_le_pow_left hceil 2)

/-- **The search is exact**: the result is the least time that covers the distance. -/
theorem leastTime_le_iff (hv : 0 < v) (n : Nat) : leastTime v d2 ≤ n ↔ d2 ≤ (v * n) ^ 2 := by
  unfold leastTime
  split
  · next h => simp [h]
  · have hest := le_estimate_sq hv d2
    have hdown := stepDown_le_iff hest
    dsimp only
    rw [stepUp_of_le d2 ((hdown _).mp le_rfl)]
    exact hdown n

/-- The same, for integers. -/
theorem leastTime_le_int_iff {v d2 : Int} (hv : 0 < v) (hd : 0 ≤ d2) (n : Int) :
    (leastTime v.toNat d2.toNat : Int) ≤ n ↔ 0 ≤ n ∧ d2 ≤ (v * n) ^ 2 := by
  have hcast : ∀ m : Nat, leastTime v.toNat d2.toNat ≤ m ↔ d2 ≤ (v * m) ^ 2 := by
    intro m
    rw [leastTime_le_iff (by omega), ← Int.ofNat_le, Int.toNat_of_nonneg hd]
    push_cast
    rw [Int.toNat_of_nonneg hv.le]
  constructor
  · intro h
    have hn : 0 ≤ n := (Int.natCast_nonneg _).trans h
    have hle := (hcast n.toNat).mp (by omega)
    rw [Int.toNat_of_nonneg hn] at hle
    exact ⟨hn, hle⟩
  · rintro ⟨hn, h⟩
    have hle := (hcast n.toNat).mpr (by rwa [Int.toNat_of_nonneg hn])
    omega

/-- **The least time is a quotient rounded up.** -/
theorem leastTime_eq_ceil {K : Type*} [Field K] [LinearOrder K] [IsStrictOrderedRing K]
    [FloorSemiring K] {v d2 : Int} {x : K} (hv : 0 < v) (hx : 0 ≤ x) (hsq : x ^ 2 = d2) :
    leastTime v.toNat d2.toNat = ⌈x / v⌉₊ := by
  have hpos : (0 : K) < v := Int.cast_pos.mpr hv
  have hd : 0 ≤ d2 := by
    rw [← Int.cast_nonneg_iff (R := K), ← hsq]
    positivity
  apply eq_of_forall_ge_iff
  intro n
  rw [← Int.ofNat_le, leastTime_le_int_iff hv hd, and_iff_right (Int.natCast_nonneg n), Nat.ceil_le,
    div_le_iff₀' hpos, ← pow_le_pow_iff_left₀ hx (by positivity) two_ne_zero, hsq]
  norm_cast

/-- Twice a number rounded up is its double rounded up, or one more. -/
theorem two_mul_ceil_le {K : Type*} [Field K] [LinearOrder K] [IsStrictOrderedRing K]
    [FloorSemiring K] (x : K) : 2 * ⌈x⌉₊ ≤ ⌈2 * x⌉₊ + 1 := by
  by_contra! h
  obtain ⟨m, hm⟩ := Nat.exists_eq_succ_of_ne_zero (show ⌈x⌉₊ ≠ 0 by omega)
  have hdouble : 2 * x ≤ (2 * m : Nat) := Nat.ceil_le.mp (by omega)
  have hx : x ≤ m := by
    push_cast at hdouble
    linarith
  have hceil := Nat.ceil_le.mpr hx
  omega

/-! ## The search as it runs -/

/-- `while guard(s): s = body(s)` from `s` stops in `t`. -/
inductive Ends {α : Type*} (guard : α → Prop) (body : α → α) : α → α → Prop
  | stop {s : α} (h : ¬ guard s) : Ends guard body s s
  | round {s t : α} (h : guard s) (rest : Ends guard body (body s) t) : Ends guard body s t

theorem Ends.unique {α : Type*} {guard : α → Prop} {body : α → α} {s t t' : α}
    (h : Ends guard body s t) (h' : Ends guard body s t') : t = t' := by
  induction h with
  | stop hstop =>
      cases h' with
      | stop => rfl
      | round hround => exact absurd hround hstop
  | round hround rest ih =>
      cases h' with
      | stop hstop => exact absurd hround hstop
      | round _ rest' => exact ih rest'

/-- `⌈√d2⌉`, from the integer square root. -/
def ceilIntSqrt (d2 : Int) : Int :=
  let r := Int.sqrt d2
  if r * r < d2 then r + 1 else r

/-- `-(-r // v)`: the quotient rounded up, where `//` rounds down. -/
def ceilQuotient (r v : Int) : Int := -(-r).fdiv v

/-- The code returns `dt`: `0` when `d` is zero, else where the two loops end. -/
inductive Search (d v d2 : Int) : Int → Prop
  | zero (h : d = 0) : Search d v d2 0
  | corrected {dt dt' : Int} (h : d ≠ 0)
      (down : Ends (fun dt => 0 < dt ∧ (v * (dt - 1)) ^ 2 ≥ d2) (· - 1)
        (ceilQuotient (ceilIntSqrt d2) v) dt)
      (up : Ends (fun dt => (v * dt) ^ 2 < d2) (· + 1) dt dt') : Search d v d2 dt'

theorem ceilIntSqrt_eq {d2 : Int} (hd : 0 ≤ d2) : ceilIntSqrt d2 = ceilSqrt d2.toNat := by
  obtain ⟨d, rfl⟩ := Int.eq_ofNat_of_zero_le hd
  simp only [ceilIntSqrt, ceilSqrt, Int.sqrt_natCast, Int.toNat_natCast]
  norm_cast

theorem ceilQuotient_le_iff {r v n : Int} (hv : 0 < v) : ceilQuotient r v ≤ n ↔ r ≤ v * n := by
  rw [ceilQuotient, Int.fdiv_eq_ediv_of_nonneg _ hv.le, neg_le, Int.le_ediv_iff_mul_le hv, neg_mul,
    neg_le_neg_iff, mul_comm]

variable {d v d2 : Int}

/-- **The estimate is exact.** -/
theorem estimate_eq_leastTime (hv : 0 < v) (hd : 0 ≤ d2) :
    ceilQuotient (ceilIntSqrt d2) v = leastTime v.toNat d2.toNat := by
  apply eq_of_forall_ge_iff
  intro n
  rw [ceilQuotient_le_iff hv, ceilIntSqrt_eq hd, leastTime_le_int_iff hv hd]
  by_cases hn : 0 ≤ n
  · obtain ⟨m, hm⟩ := Int.eq_ofNat_of_zero_le (mul_nonneg hv.le hn)
    rw [and_iff_right hn, hm, Int.ofNat_le, ceilSqrt_le_iff, ← Int.ofNat_le, Int.toNat_of_nonneg hd]
    norm_cast
  · refine iff_of_false (fun h => hn ?_) fun h => hn h.1
    exact nonneg_of_mul_nonneg_right ((Int.natCast_nonneg _).trans h) hv

theorem isLeast_leastTime (hv : 0 < v) (hd : 0 ≤ d2) :
    IsLeast {n : Int | 0 ≤ n ∧ d2 ≤ (v * n) ^ 2} (leastTime v.toNat d2.toNat) :=
  ⟨(leastTime_le_int_iff hv hd _).mp le_rfl, fun n hn => (leastTime_le_int_iff hv hd n).mpr hn⟩

/-- **The code returns, and returns the least time**: neither of its loops has a round to run. -/
theorem search_iff (hv : 0 < v) (hd : 0 ≤ d2) (hzero : d = 0 → d2 = 0) {dt : Int} :
    Search d v d2 dt ↔ dt = leastTime v.toNat d2.toNat := by
  obtain ⟨⟨hnonneg, hcovers⟩, hleast⟩ := isLeast_leastTime hv hd
  have hdown : Ends (fun dt => 0 < dt ∧ (v * (dt - 1)) ^ 2 ≥ d2) (· - 1)
      (ceilQuotient (ceilIntSqrt d2) v) (leastTime v.toNat d2.toNat) := by
    rw [estimate_eq_leastTime hv hd]
    refine .stop fun h => ?_
    have hle := hleast ⟨by omega, h.2⟩
    omega
  have hup : Ends (fun dt => (v * dt) ^ 2 < d2) (· + 1) (leastTime v.toNat d2.toNat : Int)
      (leastTime v.toNat d2.toNat) := .stop (not_lt.mpr hcovers)
  constructor
  · intro h
    cases h with
    | zero h =>
        rw [hzero h]
        simp [leastTime]
    | corrected _ down up =>
        cases down.unique hdown
        exact up.unique hup
  · rintro rfl
    by_cases h : d = 0
    · have hnone : (leastTime v.toNat d2.toNat : Int) = 0 := by
        rw [hzero h]
        simp [leastTime]
      rw [hnone]
      exact .zero h
    · exact .corrected h hdown hup

end LeastTime
