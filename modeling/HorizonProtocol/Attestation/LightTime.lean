import HorizonProtocol.Attestation.Distance
import HorizonProtocol.Attestation.Measure

/-!
# Light times

The three floors that every verdict rests on: `min_light_time_ns` of `horizon/geometry.py`,
`min_round_trip_ns` of `horizon/distance.py` and `min_transit_time_ns_eff` of `horizon/measure.py`.
They are one search over different squares, and what they find is the light time of real space,
twice it, and its multiple in a slower medium, each rounded up to whole nanoseconds.

* `lightTimes_exact` — the searches return, and return the exact boundary.
* `lightTime_metric` — whole light times are a metric, and a round trip is two of them or one less.
-/

namespace HorizonProtocol.Attestation

variable {p1 p2 : Pos} {num den : ℕ+}

/-! ## The floors in real time -/

/-- How long light takes, in nanoseconds of real time. -/
noncomputable def lightTime (p1 p2 : Pos) : ℝ := ‖p2.toSpace - p1.toSpace‖ / cNmPerNs

theorem lightTime_nonneg (p1 p2 : Pos) : 0 ≤ lightTime p1 p2 :=
  div_nonneg (norm_nonneg _) (by norm_num [cNmPerNs])

theorem minLightTimeNs_eq_ceil (p1 p2 : Pos) : minLightTimeNs p1 p2 = ⌈lightTime p1 p2⌉₊ :=
  LeastTime.leastTime_eq_ceil (by decide) (norm_nonneg _) (norm_toSpace_sub_sq p1 p2)

theorem minRoundTripNs_eq_ceil (p1 p2 : Pos) : minRoundTripNs p1 p2 = ⌈2 * lightTime p1 p2⌉₊ := by
  have hsq : (2 * ‖p2.toSpace - p1.toSpace‖) ^ 2 = ((4 * dist2 p1 p2 : Int) : ℝ) := by
    rw [mul_pow, norm_toSpace_sub_sq]
    push_cast
    norm_num
  rw [lightTime, ← mul_div_assoc]
  exact LeastTime.leastTime_eq_ceil (by decide) (by positivity) hsq

/-- The square and the speed of the slower medium, as integers. -/
theorem minTransitTimeNsEff_eq (p1 p2 : Pos) (num den : ℕ+) :
    minTransitTimeNsEff p1 p2 num den =
      LeastTime.leastTime (cNmPerNs * num).toNat (den * den * dist2 p1 p2).toNat := by
  rw [Int.toNat_mul (by decide) (Int.natCast_nonneg _), Int.toNat_mul (by positivity)
    (dist2_nonneg p1 p2)]
  norm_cast

theorem minTransitTimeNsEff_eq_ceil (p1 p2 : Pos) (num den : ℕ+) :
    minTransitTimeNsEff p1 p2 num den = ⌈lightTime p1 p2 * (den / num)⌉₊ := by
  have hsq : (den * ‖p2.toSpace - p1.toSpace‖) ^ 2 = ((den * den * dist2 p1 p2 : Int) : ℝ) := by
    rw [mul_pow, norm_toSpace_sub_sq]
    push_cast
    ring
  have hnum : (0 : ℝ) < (num : ℕ) := by exact_mod_cast num.pos
  have hquot : lightTime p1 p2 * (den / num) =
      den * ‖p2.toSpace - p1.toSpace‖ / ((cNmPerNs * num : Int) : ℝ) := by
    rw [lightTime]
    push_cast
    field_simp
  rw [minTransitTimeNsEff_eq, hquot]
  exact LeastTime.leastTime_eq_ceil (mul_pos (by decide) (by exact_mod_cast num.pos))
    (by positivity) hsq

/-- The slower medium is not faster than light. -/
theorem minLightTimeNs_le_minTransitTimeNsEff (p1 p2 : Pos) (h : num ≤ den) :
    minLightTimeNs p1 p2 ≤ minTransitTimeNsEff p1 p2 num den := by
  have hnum : (0 : ℝ) < (num : ℕ) := by exact_mod_cast num.pos
  have hslower : (1 : ℝ) ≤ den / num := by
    rw [one_le_div hnum]
    exact_mod_cast h
  rw [minLightTimeNs_eq_ceil, minTransitTimeNsEff_eq_ceil]
  exact Nat.ceil_mono (le_mul_of_one_le_right (lightTime_nonneg p1 p2) hslower)

/-! ## The searches -/

/-- `min_light_time_ns` returns this. -/
def MinLightTimeReturns (p1 p2 : Pos) : Int → Prop :=
  LeastTime.Search (dist2 p1 p2) cNmPerNs (dist2 p1 p2)

/-- `min_round_trip_ns` returns this. -/
def MinRoundTripReturns (vPos pPos : Pos) : Int → Prop :=
  LeastTime.Search (4 * dist2 vPos pPos) cNmPerNs (4 * dist2 vPos pPos)

/-- `min_transit_time_ns_eff` returns this. The distance is tested for zero before the medium comes
in. -/
def MinTransitTimeEffReturns (p1 p2 : Pos) (cEffNum cEffDen : ℕ+) : Int → Prop :=
  LeastTime.Search (dist2 p1 p2) (cNmPerNs * cEffNum) (cEffDen * cEffDen * dist2 p1 p2)

/-- What is returned is `dt` and nothing else: the least time at which the speed `v` covers a
distance of square `d2`. -/
structure ExactFloor (returns : Int → Prop) (v d2 : Int) (dt : Nat) : Prop where
  returned : ∀ t, returns t ↔ t = dt
  least : IsLeast {t : Int | 0 ≤ t ∧ d2 ≤ (v * t) ^ 2} dt

theorem exactFloor_of_search {d v d2 : Int} (hv : 0 < v) (hd : 0 ≤ d2) (hzero : d = 0 → d2 = 0) :
    ExactFloor (LeastTime.Search d v d2) v d2 (LeastTime.leastTime v.toNat d2.toNat) where
  returned _ := LeastTime.search_iff hv hd hzero
  least := LeastTime.isLeast_leastTime hv hd

/-- **The light-time searches find the exact boundary.** For all points and media each of the three
returns, and what it returns is the least time that covers its square. So the cone of an event
begins at the floor, and no medium slower than light has a lower one. -/
theorem lightTimes_exact :
    (∀ p1 p2, ExactFloor (MinLightTimeReturns p1 p2) cNmPerNs (dist2 p1 p2)
      (minLightTimeNs p1 p2)) ∧
    (∀ vPos pPos, ExactFloor (MinRoundTripReturns vPos pPos) cNmPerNs (4 * dist2 vPos pPos)
      (minRoundTripNs vPos pPos)) ∧
    (∀ p1 p2 num den, ExactFloor (MinTransitTimeEffReturns p1 p2 num den) (cNmPerNs * num)
      (den * den * dist2 p1 p2) (minTransitTimeNsEff p1 p2 num den)) ∧
    (∀ t1 p1 t2 p2, causallyAdmissible t1 p1 t2 p2 = true ↔
      (minLightTimeNs p1 p2 : Int) ≤ t2 - t1) ∧
    ∀ (p1 p2 : Pos) (num den : ℕ+), num ≤ den →
      minLightTimeNs p1 p2 ≤ minTransitTimeNsEff p1 p2 num den := by
  have hc : 0 < cNmPerNs := by decide
  refine ⟨?_, ?_, ?_, ?_, ?_⟩
  · intro p1 p2
    exact exactFloor_of_search hc (dist2_nonneg p1 p2) id
  · intro vPos pPos
    exact exactFloor_of_search hc (mul_nonneg (by decide) (dist2_nonneg vPos pPos)) id
  · intro p1 p2 num den
    rw [minTransitTimeNsEff_eq]
    refine exactFloor_of_search (mul_pos hc (by exact_mod_cast num.pos))
      (mul_nonneg (by positivity) (dist2_nonneg p1 p2)) fun h => ?_
    rw [h, mul_zero]
  · exact fun t1 p1 t2 p2 => causallyAdmissible_iff_minLightTime
  · exact fun p1 p2 num den h => minLightTimeNs_le_minTransitTimeNsEff p1 p2 h

/-! ## The metric -/

/-- **Whole light times are a metric, and round trips round consistently with them.** -/
theorem lightTime_metric :
    (∀ p1 p2, minLightTimeNs p1 p2 = minLightTimeNs p2 p1) ∧
    (∀ p1 p2, minLightTimeNs p1 p2 = 0 ↔ p1 = p2) ∧
    (∀ p1 p2 p3, minLightTimeNs p1 p3 ≤ minLightTimeNs p1 p2 + minLightTimeNs p2 p3) ∧
    ∀ p1 p2, 2 * (minLightTimeNs p1 p2 : Int) - 1 ≤ minRoundTripNs p1 p2 ∧
      minRoundTripNs p1 p2 ≤ 2 * minLightTimeNs p1 p2 := by
  refine ⟨minLightTimeNs_comm, fun _ _ => minLightTimeNs_eq_zero, minLightTimeNs_triangle, ?_⟩
  intro p1 p2
  refine ⟨?_, minRoundTripNs_le_two_mul p1 p2⟩
  have hdouble := LeastTime.two_mul_ceil_le (lightTime p1 p2)
  rw [← minLightTimeNs_eq_ceil, ← minRoundTripNs_eq_ceil] at hdouble
  omega

end HorizonProtocol.Attestation
