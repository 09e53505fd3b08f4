import Mathlib.Data.Int.Order.Basic
import Mathlib.Tactic.Linarith
import Mathlib.Tactic.Ring

/-!
# Scanning and halving

Two searches for a change of a test on the integers. `scan` goes up in steps of one size until the
test is true or the end is passed. `bisect` halves a range until its ends are neighbours, and keeps
an end on each side of the change. Both are total: what is left of the range goes down.

* `scan_eq_none_iff` — what a scan that finds nothing has seen.
* `bisect_crosses` — a bisection ends at a change of the test.
-/

namespace Search

/-! ## Scanning -/

/-- `while t <= stop: if p(t): return t; t += step`. -/
def scan (p : Int → Bool) {step : Int} (hstep : 0 < step) (stop t : Int) : Option Int :=
  if t ≤ stop then
    if p t then some t else scan p hstep stop (t + step)
  else none
termination_by (stop + 1 - t).toNat

variable {p : Int → Bool} {step stop t lo hi : Int}

theorem scan_eq_some {hstep : 0 < step} {s : Int} (h : scan p hstep stop t = some s) :
    t ≤ s ∧ s ≤ stop ∧ p s = true := by
  fun_induction scan p hstep stop t with
  | case1 t hle hp =>
      cases h
      exact ⟨le_rfl, hle, hp⟩
  | case2 t hle hp ih =>
      have hs := ih h
      exact ⟨by omega, hs.2⟩
  | case3 t hgt => cases h

/-- **A scan finds nothing exactly when the test is false at each of its stops.** -/
theorem scan_eq_none_iff {hstep : 0 < step} :
    scan p hstep stop t = none ↔ ∀ k : Nat, t + k * step ≤ stop → p (t + k * step) = false := by
  fun_induction scan p hstep stop t with
  | case1 t hle hp =>
      refine iff_of_false (Option.some_ne_none t) ?_
      intro h
      have h0 := h 0 (by simpa using hle)
      rw [Nat.cast_zero, zero_mul, add_zero, hp] at h0
      cases h0
  | case2 t hle hp ih =>
      rw [ih]
      have hnext : ∀ k : Nat, t + step + k * step = t + (k + 1 : Nat) * step := by
        intro k
        push_cast
        ring
      constructor
      · intro h k
        cases k with
        | zero => simpa using fun _ : t ≤ stop => hp
        | succ k => simpa only [hnext] using h k
      · intro h k
        simpa only [hnext] using h (k + 1)
  | case3 t hgt =>
      refine iff_of_true rfl ?_
      intro k hk
      have hpos : 0 ≤ (k : Int) * step := mul_nonneg (Int.natCast_nonneg k) hstep.le
      omega

/-- A run of true tests as long as a step is not skipped. -/
theorem scan_ne_none_of_run {hstep : 0 < step} {first : Int} (hfirst : t ≤ first)
    (hstop : first + step - 1 ≤ stop)
    (hrun : ∀ s, first ≤ s → s < first + step → p s = true) : scan p hstep stop t ≠ none := by
  rw [Ne, scan_eq_none_iff]
  intro h
  -- the first stop that is not before the run
  obtain ⟨k, hk⟩ := Int.eq_ofNat_of_zero_le
    (Int.ediv_nonneg (show 0 ≤ first - t + step - 1 by omega) hstep.le)
  have hle := Int.ediv_mul_le (first - t + step - 1) hstep.ne'
  have hlt := Int.lt_ediv_add_one_mul_self (first - t + step - 1) hstep
  rw [hk] at hle hlt
  rw [add_one_mul] at hlt
  have hat := hrun (t + k * step) (by omega) (by omega)
  rw [h k (by omega)] at hat
  cases hat

/-! ## Halving -/

/-- `while hi - lo > 1: mid = (lo + hi) // 2; if p(mid): hi = mid else: lo = mid`. -/
def bisect (p : Int → Bool) (lo hi : Int) : Int × Int :=
  if hi - lo > 1 then
    let mid := (lo + hi) / 2
    if p mid then bisect p lo mid else bisect p mid hi
  else (lo, hi)
termination_by (hi - lo).toNat

/-- Neighbours in a range: each is an end of it or on its own side of the test. -/
structure Crosses (p : Int → Bool) (lo hi : Int) (ends : Int × Int) : Prop where
  adjacent : ends.2 = ends.1 + 1
  lo_le : lo ≤ ends.1
  le_hi : ends.2 ≤ hi
  lower : ends.1 = lo ∨ p ends.1 = false
  upper : ends.2 = hi ∨ p ends.2 = true

/-- **A bisection of a range ends at a change of the test.** -/
theorem bisect_crosses (h : lo < hi) : Crosses p lo hi (bisect p lo hi) := by
  fun_induction bisect p lo hi with
  | case1 lo hi hgap mid hp ih =>
      have hmid : lo < mid ∧ mid < hi := by omega
      have hends := ih hmid.1
      refine { hends with le_hi := hends.le_hi.trans hmid.2.le, upper := Or.inr ?_ }
      rcases hends.upper with heq | hup
      · rw [heq, hp]
      · exact hup
  | case2 lo hi hgap mid hp ih =>
      have hmid : lo < mid ∧ mid < hi := by omega
      have hends := ih hmid.2
      refine { hends with lo_le := hmid.1.le.trans hends.lo_le, lower := Or.inr ?_ }
      rcases hends.lower with heq | hlow
      · rw [heq, Bool.eq_false_of_not_eq_true hp]
      · exact hlow
  | case3 lo hi hgap =>
      exact
        { adjacent := show hi = lo + 1 by omega
          lo_le := le_rfl
          le_hi := le_rfl
          lower := Or.inl rfl
          upper := Or.inl rfl }

/-- There is nothing to halve. -/
theorem bisect_of_le (h : hi ≤ lo) : bisect p lo hi = (lo, hi) := by
  rw [bisect, if_neg (by omega)]

end Search
